import WhaleLand.Fixed
import WhaleLand.Lib.Accumulate
import Mathlib.Data.List.AList

/-!
# The image of the text

What `activate-linux` draws: the pixels of the glyphs of two lines of text, and
the bytes that are shown. Fonts and floating-point numbers are outside: a
glyph comes as its image with its position, and the two lines with the space
between them.

A pixel holds what all the glyphs together cover of it, up to 255, the width is
that of the longer line, and the height is the last row with a covered pixel
(`Text.Shows`). Where nothing overflows, this is what is drawn, in both builds,
and it is the same image in whatever order the maps of pixels are gone through
(`drawText_covers`). The height is not the number of rows, so the bytes of the
image as it is drawn are those of all its rows but the last
(`getElem?_argbBytes`).
-/

namespace WhaleLand.ActivateLinux

open MachineInt Format Accumulate

/-! ## Panics and integers -/

/-- How a computation panics. -/
inductive Panic
  | expect (msg : String)
  | unwrapErr
  | overflow
  | remainderByZero
  | indexOutOfBounds
deriving DecidableEq, Repr

section Operations

variable {T : Format} {α : Type} (ofBits : T.Val ≃ α)

/-- An operation with the exact result `n`, on a type with the values of a
format. -/
def intOp (checked : Bool) (n : Int) : Except Panic α :=
  match T.arith checked n with
  | some v => .ok (ofBits v)
  | none => .error .overflow

/-- `try_from` -/
def intTryFrom (n : Int) : Option α := (T.tryFrom n).map ofBits

end Operations

def u32OfBits : IntType.u32.format.Val ≃ UInt32 :=
  ⟨UInt32.ofBitVec, UInt32.toBitVec, fun _ => rfl, fun _ => rfl⟩

def i32OfBits : IntType.i32.format.Val ≃ Int32 :=
  ⟨Int32.ofBitVec, Int32.toBitVec, fun _ => rfl, fun _ => rfl⟩

/-- An operation on `u32` with the exact result `n`. -/
def u32Op : Bool → Int → Except Panic UInt32 := intOp u32OfBits

/-- An operation on `i32` with the exact result `n`. -/
def i32Op : Bool → Int → Except Panic Int32 := intOp i32OfBits

/-- `u32::try_from` -/
def u32TryFrom : Int → Option UInt32 := intTryFrom u32OfBits

/-- `i32::try_from` -/
def i32TryFrom : Int → Option Int32 := intTryFrom i32OfBits

/-- `Result::unwrap` on a conversion. -/
def unwrapConverted {α : Type} : Option α → Except Panic α
  | some v => .ok v
  | none => .error .unwrapErr

/-- `u8::saturating_add` -/
def saturatingAdd (a b : UInt8) : UInt8 := UInt8.ofNat (min 255 (a.toNat + b.toNat))

/-! ## Images -/

/-- The place of a pixel. -/
abbrev Place := UInt32 × UInt32

/-- `HashMap<(u32, u32), u8>` -/
abbrev PixelMap := AList fun _ : Place => UInt8

/-- An entry of a map of pixels. -/
abbrev Entry := (_ : Place) × UInt8

/-- `HashMap::into_iter`: a map is gone through in any order. -/
structure HashOrder where
  intoIter : PixelMap → List Entry
  perm : ∀ pixels, (intoIter pixels).Perm pixels.entries

/-- The latest entry first. -/
def HashOrder.insertion : HashOrder := ⟨AList.entries, fun _ => .refl _⟩

/-- The latest entry last. -/
def HashOrder.reversed : HashOrder :=
  ⟨fun pixels => pixels.entries.reverse, fun _ => List.reverse_perm _⟩

namespace PixelMap

/-- `get(..).copied().unwrap_or(0x00)` -/
def alpha (pixels : PixelMap) (k : Place) : UInt8 := (pixels.lookup k).getD 0

/-- `*entry(k).or_insert(0) = ..saturating_add(b)`, which leaves an entry
behind also if `b` is 0. -/
def add (pixels : PixelMap) (k : Place) (b : UInt8) : PixelMap :=
  pixels.insert k (saturatingAdd (pixels.alpha k) b)

end PixelMap

structure Image where
  width : UInt32
  height : UInt32
  pixels : PixelMap

namespace Image

/-- `Image::eq`: maps are equal if they have the same entries. -/
structure Same (image image' : Image) : Prop where
  width : image.width = image'.width
  height : image.height = image'.height
  lookup : ∀ k, image.pixels.lookup k = image'.pixels.lookup k

def maxYCoordinate (image : Image) : UInt32 :=
  .ofNat (((image.pixels.keys.map fun k => k.2.toNat).max?).getD 0)

/-- The pixel as white with this alpha value. -/
def argb (alphaValue : UInt8) : UInt32 :=
  (alphaValue.toUInt32 <<< 24) ||| (alphaValue.toUInt32 <<< 16) ||| (alphaValue.toUInt32 <<< 8) |||
    (alphaValue.toUInt32 <<< 0)

/-- The two loops of `to_white_argb_le`. -/
def argbBytes (image : Image) : List UInt8 :=
  (List.range image.height.toNat).flatMap fun y =>
    (List.range image.width.toNat).flatMap fun x =>
      Endian.toBytes .little 4 (argb (image.pixels.alpha (.ofNat x, .ofNat y))).toNat

/-- `to_white_argb_le`: the capacity is computed in `u32`. -/
def toWhiteArgbLe (checked : Bool) (image : Image) : Except Panic (List UInt8) := do
  let pixelCount ← u32Op checked (image.width.toNat * image.height.toNat)
  let _ ← u32Op checked (pixelCount.toNat * 4)
  return image.argbBytes

end Image

/-! ## Drawing -/

/-- A glyph as it is rendered: `pos_x_int`, and the `placement` and `data` of
its image. -/
structure Glyph where
  posXInt : UInt32
  left : Int32
  top : Int32
  width : UInt32
  height : UInt32
  data : List UInt8
deriving Repr

namespace Glyph

/-- `actual_x`; `none` is an `Err`. -/
def actualX (checked : Bool) (img : Glyph) (x : Nat) : Except Panic (Option UInt32) := do
  let column ← u32Op checked (img.posXInt.toNat + x)
  let column ← unwrapConverted (i32TryFrom column.toNat)
  let sum ← i32Op checked (img.left.toInt + column.toInt)
  return u32TryFrom sum.toInt

/-- `actual_y` -/
def actualY (checked : Bool) (ascenderPx : Int32) (img : Glyph) (y : Nat) :
    Except Panic (Option UInt32) := do
  let top ← i32Op checked (ascenderPx.toInt - img.top.toInt)
  let row ← unwrapConverted (i32TryFrom y)
  let sum ← i32Op checked (top.toInt + row.toInt)
  return u32TryFrom sum.toInt

/-- The body of the two loops over a glyph's image. -/
def drawPixel (checked : Bool) (ascenderPx : Int32) (img : Glyph) (y : Nat) (pixels : PixelMap)
    (x : Nat) : Except Panic PixelMap := do
  let row ← u32Op checked (y * img.width.toNat)
  let i ← u32Op checked (row.toNat + x)
  match img.data[i.toNat]? with
  | none => throw .indexOutOfBounds
  | some b =>
    if b = 0 then
      return pixels
    else
      match ← img.actualX checked x with
      | none => return pixels
      | some actualX =>
        match ← img.actualY checked ascenderPx y with
        | none => return pixels
        | some actualY => return pixels.add (actualX, actualY) b

def draw (checked : Bool) (ascenderPx : Int32) (pixels : PixelMap) (img : Glyph) :
    Except Panic PixelMap :=
  (List.range img.height.toNat).foldlM (fun pixels y =>
    (List.range img.width.toNat).foldlM (img.drawPixel checked ascenderPx y) pixels) pixels

end Glyph

/-- A line of text, as it is shaped and rendered. -/
structure Line where
  ascenderPx : Int32
  glyphs : List Glyph
  finalWidth : UInt32

/-- `draw_string`, from the glyphs on. -/
def drawString (checked : Bool) (line : Line) : Except Panic Image := do
  let pixels ← line.glyphs.foldlM (Glyph.draw checked line.ascenderPx) ∅
  let ret : Image := ⟨line.finalWidth, 0, pixels⟩
  return { ret with height := ret.maxYCoordinate }

/-- The bodies of the loops over the pixels of the two lines. -/
def drawUpper (pixels : PixelMap) (entry : Entry) : PixelMap := pixels.add entry.1 entry.2

def drawLower (checked : Bool) (scaledBaselineSpacing : UInt32) (pixels : PixelMap)
    (entry : Entry) : Except Panic PixelMap := do
  let y ← u32Op checked (entry.1.2.toNat + scaledBaselineSpacing.toNat)
  return pixels.add (entry.1.1, y) entry.2

/-- `draw_text`, from the images of the two lines on. -/
def drawImages (checked : Bool) (upperOrder lowerOrder : HashOrder) (upperImage lowerImage : Image)
    (scaledBaselineSpacing : UInt32) : Except Panic Image := do
  let pixels := (upperOrder.intoIter upperImage.pixels).foldl drawUpper ∅
  let pixels ← (lowerOrder.intoIter lowerImage.pixels).foldlM
    (drawLower checked scaledBaselineSpacing) pixels
  let allTextImage : Image :=
    ⟨.ofNat (max upperImage.width.toNat lowerImage.width.toNat), 0, pixels⟩
  return { allTextImage with height := allTextImage.maxYCoordinate }

/-- The two lines of text at some scale, the space between them, and the orders
of the loops over their pixels. -/
structure Text where
  upper : Line
  lower : Line
  scaledBaselineSpacing : UInt32
  upperOrder : HashOrder
  lowerOrder : HashOrder

def drawText (checked : Bool) (text : Text) : Except Panic Image := do
  let upperImage ← drawString checked text.upper
  let lowerImage ← drawString checked text.lower
  drawImages checked text.upperOrder text.lowerOrder upperImage lowerImage
    text.scaledBaselineSpacing

/-! ## Integers -/

section Integers

/-- An operation on natural numbers wraps around, or panics there. -/
theorem u32Op_natCast (checked : Bool) (n : Nat) :
    u32Op checked n =
      if n < 4294967296 ∨ checked = false then .ok (.ofNat n) else .error .overflow := by
  have hwrapped : UInt32.ofBitVec (BitVec.ofInt 32 n) = UInt32.ofNat n := by
    rw [BitVec.ofInt_natCast]
    rfl
  have hrange : IntType.u32.format.InRange n ↔ n < 4294967296 := by
    show (0 ≤ (n : Int) ∧ (n : Int) < (2 ^ 32 : Nat)) ↔ _
    omega
  unfold u32Op intOp
  by_cases hn : n < 4294967296
  · rw [arith_of_inRange checked (hrange.mpr hn), if_pos (.inl hn)]
    exact congrArg Except.ok hwrapped
  · cases checked with
    | false =>
      simp only [or_true, if_true]
      exact congrArg Except.ok hwrapped
    | true =>
      rw [arith_of_not_inRange (fun h => hn (hrange.mp h)), if_neg (by simp [hn])]

section Operations

variable {T : Format} {α : Type} {ofBits : T.Val ≃ α} {n : Int} {a : α}

theorem intOp_checked (h : intOp ofBits true n = .ok a) : value (ofBits.symm a) = n := by
  unfold intOp arith at h
  simp only [if_true] at h
  cases hfrom : T.tryFrom n with
  | none =>
    rw [hfrom] at h
    cases h
  | some v =>
    rw [hfrom] at h
    cases h
    rw [Equiv.symm_apply_apply]
    exact tryFrom_eq_some.mp hfrom

/-- A result of the type comes out in every build. -/
theorem intOp_value (checked : Bool) (a : α) :
    intOp ofBits checked (value (ofBits.symm a)) = .ok a := by
  unfold intOp
  rw [arith_value]
  exact congrArg Except.ok (ofBits.apply_symm_apply a)

theorem intTryFrom_eq_some : intTryFrom ofBits n = some a ↔ value (ofBits.symm a) = n := by
  unfold intTryFrom
  rw [Option.map_eq_some_iff, ← tryFrom_eq_some]
  constructor
  · rintro ⟨v, hfrom, rfl⟩
    rwa [Equiv.symm_apply_apply]
  · exact fun hfrom => ⟨_, hfrom, ofBits.apply_symm_apply a⟩

/-- Where the checked build does not panic, the other one has the same result. -/
theorem agrees_intOp (checked : Bool) (n : Int) :
    Agrees (intOp ofBits true n) (intOp ofBits checked n) := by
  intro a ha
  rw [← intOp_checked ha, intOp_value]

end Operations

theorem u32Op_checked {n : Int} {v : UInt32} (h : u32Op true n = .ok v) : (v.toNat : Int) = n :=
  intOp_checked h

theorem i32Op_checked {n : Int} {v : Int32} (h : i32Op true n = .ok v) : v.toInt = n :=
  intOp_checked h

theorem i32Op_toInt (checked : Bool) (v : Int32) : i32Op checked v.toInt = .ok v :=
  intOp_value checked v

theorem u32TryFrom_eq_some {n : Int} {v : UInt32} :
    u32TryFrom n = some v ↔ (v.toNat : Int) = n :=
  intTryFrom_eq_some

theorem i32TryFrom_eq_some {n : Int} {v : Int32} : i32TryFrom n = some v ↔ v.toInt = n :=
  intTryFrom_eq_some

theorem unwrapConverted_eq_ok {α : Type} {o : Option α} {v : α} :
    unwrapConverted o = .ok v ↔ o = some v := by
  cases o <;> simp [unwrapConverted]

theorem toNat_saturatingAdd (a b : UInt8) :
    (saturatingAdd a b).toNat = min 255 (a.toNat + b.toNat) :=
  UInt8.toNat_ofNat_of_lt' (Nat.lt_of_le_of_lt (Nat.min_le_left ..) (by decide))

end Integers

/-! ## Maps of pixels -/

namespace PixelMap

variable {pixels : PixelMap} {k k' : Place} {b : UInt8}

/-- The alpha value as a number. -/
def level (pixels : PixelMap) (k : Place) : Nat := (pixels.alpha k).toNat

theorem level_le (pixels : PixelMap) (k : Place) : pixels.level k ≤ 255 :=
  Nat.le_of_lt_succ (pixels.alpha k).toNat_lt

theorem level_add (pixels : PixelMap) (k : Place) (b : UInt8) (k' : Place) :
    (pixels.add k b).level k' = min 255 (pixels.level k' + if k = k' then b.toNat else 0) := by
  unfold level alpha add
  split
  · next h =>
    subst h
    rw [AList.lookup_insert]
    exact toNat_saturatingAdd _ _
  · next h =>
    rw [AList.lookup_insert_ne (Ne.symm h)]
    exact (Nat.min_eq_right (pixels.level_le k')).symm

theorem level_empty (k : Place) : level ∅ k = 0 := rfl

/-- What the entries of a map come to under a key. -/
theorem sum_entries (pixels : PixelMap) (k : Place) :
    (pixels.entries.map fun entry => if entry.1 = k then entry.2.toNat else 0).sum =
      pixels.level k := by
  induction pixels using AList.insertRec with
  | H0 => rfl
  | IH k' b pixels hnew ih =>
    rw [AList.entries_insert_of_notMem hnew, List.map_cons, List.sum_cons, ih]
    unfold level alpha
    split
    · next h =>
      subst h
      rw [AList.lookup_insert, AList.lookup_eq_none.mpr hnew]
      rfl
    · next h =>
      rw [AList.lookup_insert_ne (Ne.symm h), Nat.zero_add]

/-- A key that holds something has an entry. -/
theorem mem_of_level_pos {pixels : PixelMap} {k : Place} (h : 0 < pixels.level k) :
    k ∈ pixels.keys := by
  by_contra hnone
  unfold level alpha at h
  rw [AList.lookup_eq_none.mpr hnone] at h
  cases h

end PixelMap

namespace Image

variable {image : Image}

/-- It is the last row with an entry. -/
theorem maxYCoordinate_spec (h : image.pixels.keys ≠ []) :
    (∃ k ∈ image.pixels.keys, k.2 = image.maxYCoordinate) ∧
      ∀ k ∈ image.pixels.keys, k.2.toNat ≤ image.maxYCoordinate.toNat := by
  unfold maxYCoordinate
  cases hmax : (image.pixels.keys.map fun k => k.2.toNat).max? with
  | none => exact absurd (List.map_eq_nil_iff.mp (List.max?_eq_none_iff.mp hmax)) h
  | some y =>
    obtain ⟨hrow, hlast⟩ := List.max?_eq_some_iff.mp hmax
    obtain ⟨k, hk, rfl⟩ := List.mem_map.mp hrow
    rw [Option.getD_some, UInt32.ofNat_toNat]
    exact ⟨⟨k, hk, rfl⟩, List.forall_mem_map.mp hlast⟩

theorem toBytes_argb (a : UInt8) : Endian.toBytes .little 4 (argb a).toNat = [a, a, a, a] := by
  have hall : ∀ n < 256, Endian.toBytes .little 4 (argb (.ofNat n)).toNat =
      [.ofNat n, .ofNat n, .ofNat n, .ofNat n] := by decide +kernel
  have ha := hall a.toNat a.toNat_lt
  rwa [UInt8.ofNat_toNat] at ha

end Image

/-! ## What is drawn -/

namespace Glyph

/-- The column and the row of a value of a glyph's image, as numbers. -/
def column (img : Glyph) (x : Nat) : Int := img.left.toInt + (img.posXInt.toNat + x)

def row (ascenderPx : Int32) (img : Glyph) (y : Nat) : Int :=
  ascenderPx.toInt - img.top.toInt + y

/-- What one value of a glyph's image covers of a pixel. -/
def share (ascenderPx : Int32) (img : Glyph) (k : Place) (y x : Nat) : Nat :=
  if img.column x = k.1.toNat ∧ img.row ascenderPx y = k.2.toNat then
    (img.data.getD (y * img.width.toNat + x) 0).toNat
  else
    0

/-- What a glyph covers of a pixel. -/
def coverage (ascenderPx : Int32) (img : Glyph) (k : Place) : Nat :=
  ((List.range img.height.toNat).map fun y =>
    ((List.range img.width.toNat).map fun x => img.share ascenderPx k y x).sum).sum

end Glyph

section Drawing

variable {ascenderPx : Int32} {img : Glyph} {glyphs : List Glyph} {x y : Nat}

theorem actualX_checked {o : Option UInt32} (h : img.actualX true x = .ok o) :
    o = u32TryFrom (img.column x) := by
  simp only [Glyph.actualX, Collect.bind_eq_ok, unwrapConverted_eq_ok, i32TryFrom_eq_some] at h
  obtain ⟨column, hcolumn, signed, hsigned, sum, hsum, hlast⟩ := h
  cases hlast
  rw [i32Op_checked hsum, hsigned, u32Op_checked hcolumn, Glyph.column]

theorem actualY_checked {o : Option UInt32} (h : img.actualY true ascenderPx y = .ok o) :
    o = u32TryFrom (img.row ascenderPx y) := by
  simp only [Glyph.actualY, Collect.bind_eq_ok, unwrapConverted_eq_ok, i32TryFrom_eq_some] at h
  obtain ⟨top, htop, row, hrow, sum, hsum, hlast⟩ := h
  cases hlast
  rw [i32Op_checked hsum, i32Op_checked htop, hrow, Glyph.row]

/-- What the two conversions of a place say about the values that land there. -/
theorem share_of_place {ox oy : Option UInt32} (hx : ox = u32TryFrom (img.column x))
    (hy : oy = u32TryFrom (img.row ascenderPx y)) (k : Place) :
    img.share ascenderPx k y x =
      if ox = some k.1 ∧ oy = some k.2 then (img.data.getD (y * img.width.toNat + x) 0).toNat
      else 0 := by
  subst hx hy
  have hcolumn : img.column x = k.1.toNat ↔ u32TryFrom (img.column x) = some k.1 := by
    rw [u32TryFrom_eq_some, eq_comm]
  have hrow : img.row ascenderPx y = k.2.toNat ↔
      u32TryFrom (img.row ascenderPx y) = some k.2 := by
    rw [u32TryFrom_eq_some, eq_comm]
  simp only [Glyph.share, hcolumn, hrow]

/-- A turn of the inner loop adds the value of the image where it lands. -/
theorem adds_drawPixel :
    Adds PixelMap.level 255 (fun pixels => img.drawPixel true ascenderPx y pixels x) fun k =>
      img.share ascenderPx k y x := by
  intro pixels pixels' h k
  simp only [Glyph.drawPixel, Collect.bind_eq_ok] at h
  obtain ⟨row, hrow, i, hi, h⟩ := h
  have hindex : i.toNat = y * img.width.toNat + x := by
    have hrow := u32Op_checked hrow
    have hi := u32Op_checked hi
    rw [hrow] at hi
    exact_mod_cast hi
  have hsame : img.share ascenderPx k y x = 0 →
      pixels.level k = min 255 (pixels.level k + img.share ascenderPx k y x) := by
    intro hzero
    rw [hzero]
    exact (Nat.min_eq_right (pixels.level_le k)).symm
  show pixels'.level k = min 255 (pixels.level k + img.share ascenderPx k y x)
  cases hb : img.data[i.toNat]? with
  | none =>
    rw [hb] at h
    cases h
  | some b =>
    have hget : img.data.getD (y * img.width.toNat + x) 0 = b := by
      rw [← hindex, List.getD_eq_getElem?_getD, hb, Option.getD_some]
    simp only [hb] at h
    split at h
    · next hzero =>
      cases h
      refine hsame ?_
      rw [Glyph.share, hget, hzero, UInt8.toNat_zero, ite_self]
    · obtain ⟨ox, hox, h⟩ := Collect.bind_eq_ok.mp h
      have hx := actualX_checked hox
      cases ox with
      | none =>
        cases h
        refine hsame ?_
        rw [share_of_place hx rfl, if_neg (by simp)]
      | some actualX =>
        obtain ⟨oy, hoy, h⟩ := Collect.bind_eq_ok.mp h
        have hplace := share_of_place hx (actualY_checked hoy) k
        cases oy with
        | none =>
          cases h
          refine hsame ?_
          rw [hplace, if_neg (by simp)]
        | some actualY =>
          cases h
          rw [PixelMap.level_add, hplace, hget]
          simp only [Option.some.injEq, Prod.ext_iff]

theorem adds_draw :
    Adds PixelMap.level 255 (fun pixels => img.draw true ascenderPx pixels)
      (img.coverage ascenderPx) :=
  Adds.foldlM PixelMap.level_le fun _ _ => Adds.foldlM PixelMap.level_le fun _ _ => adds_drawPixel

/-- What the glyphs of a line together cover of a pixel. -/
def Line.coverage (line : Line) (k : Place) : Nat :=
  (line.glyphs.map fun img => img.coverage line.ascenderPx k).sum

/-- A line of text: every pixel is what all the glyphs together cover of it. -/
theorem drawString_level {line : Line} {image : Image} (h : drawString true line = .ok image)
    (k : Place) : image.pixels.level k = min 255 (line.coverage k) := by
  unfold drawString at h
  obtain ⟨pixels, hpixels, hlast⟩ := Collect.bind_eq_ok.mp h
  cases hlast
  have hlevel : pixels.level k = min 255 (PixelMap.level ∅ k + line.coverage k) :=
    Adds.foldlM PixelMap.level_le (fun _ _ => adds_draw) ∅ pixels hpixels k
  rwa [PixelMap.level_empty, Nat.zero_add] at hlevel

end Drawing

section Composition

variable {upperOrder lowerOrder order : HashOrder} {upperImage lowerImage image : Image}
  {scaledBaselineSpacing : UInt32}

/-- What there is at a pixel when everything is moved down by so many rows. -/
def movedDown (rows : UInt32) (f : Place → Nat) (k : Place) : Nat :=
  if rows.toNat ≤ k.2.toNat then f (k.1, k.2 - rows) else 0

theorem adds_drawUpper (entry : Entry) :
    Adds (ε := Panic) PixelMap.level 255 (fun pixels => pure (drawUpper pixels entry))
      fun k => if entry.1 = k then entry.2.toNat else 0 := by
  intro pixels pixels' h k
  cases h
  exact PixelMap.level_add pixels entry.1 entry.2 k

theorem adds_drawLower (entry : Entry) :
    Adds PixelMap.level 255 (fun pixels => drawLower true scaledBaselineSpacing pixels entry)
      (movedDown scaledBaselineSpacing fun k => if entry.1 = k then entry.2.toNat else 0) := by
  intro pixels pixels' h k
  obtain ⟨⟨x, y⟩, b⟩ := entry
  obtain ⟨kx, ky⟩ := k
  simp only [drawLower, Collect.bind_eq_ok] at h
  obtain ⟨sum, hsum, hlast⟩ := h
  cases hlast
  have hsum : sum.toNat = y.toNat + scaledBaselineSpacing.toNat := by
    exact_mod_cast u32Op_checked hsum
  have hplace : (x, sum) = (kx, ky) ↔ scaledBaselineSpacing.toNat ≤ ky.toNat ∧
      (x, y) = (kx, ky - scaledBaselineSpacing) := by
    rw [Prod.mk.injEq, Prod.mk.injEq, ← UInt32.toNat_inj (a := sum), ← UInt32.toNat_inj (a := y)]
    constructor
    · rintro ⟨rfl, hky⟩
      have hle : scaledBaselineSpacing.toNat ≤ ky.toNat := by omega
      rw [UInt32.toNat_sub_of_le _ _ hle]
      exact ⟨hle, rfl, by omega⟩
    · rintro ⟨hle, rfl, hy⟩
      rw [UInt32.toNat_sub_of_le _ _ hle] at hy
      exact ⟨rfl, by omega⟩
  rw [PixelMap.level_add]
  simp only [hplace, movedDown, ite_and]

/-- A sum over a map does not depend on the order. -/
theorem sum_intoIter (order : HashOrder) (pixels : PixelMap) (f : Entry → Nat) :
    ((order.intoIter pixels).map f).sum = (pixels.entries.map f).sum :=
  ((order.perm pixels).map f).sum_eq

theorem drawUpper_level (order : HashOrder) (pixels : PixelMap) (k : Place) :
    ((order.intoIter pixels).foldl drawUpper ∅).level k = pixels.level k := by
  have hadds : ((order.intoIter pixels).foldl drawUpper ∅).level k = min 255 (PixelMap.level ∅ k +
      ((order.intoIter pixels).map fun entry => if entry.1 = k then entry.2.toNat else 0).sum) :=
    Adds.foldlM PixelMap.level_le (fun entry _ => adds_drawUpper entry) ∅ _ List.foldlM_pure k
  rw [hadds, PixelMap.level_empty, Nat.zero_add, sum_intoIter, PixelMap.sum_entries]
  exact Nat.min_eq_right (pixels.level_le k)

theorem sum_movedDown (pixels : PixelMap) (rows : UInt32) (k : Place) :
    (pixels.entries.map fun entry =>
      movedDown rows (fun k => if entry.1 = k then entry.2.toNat else 0) k).sum =
        movedDown rows pixels.level k := by
  unfold movedDown
  split
  · exact pixels.sum_entries _
  · simp

theorem drawImages_level
    (h : drawImages true upperOrder lowerOrder upperImage lowerImage scaledBaselineSpacing =
      .ok image) (k : Place) :
    image.pixels.level k = min 255
      (upperImage.pixels.level k + movedDown scaledBaselineSpacing lowerImage.pixels.level k) := by
  unfold drawImages at h
  obtain ⟨pixels, hpixels, hlast⟩ := Collect.bind_eq_ok.mp h
  cases hlast
  have hlower : pixels.level k =
      min 255 (((upperOrder.intoIter upperImage.pixels).foldl drawUpper ∅).level k +
        ((lowerOrder.intoIter lowerImage.pixels).map fun entry =>
          movedDown scaledBaselineSpacing (fun k => if entry.1 = k then entry.2.toNat else 0)
            k).sum) :=
    Adds.foldlM PixelMap.level_le (fun entry _ => adds_drawLower entry) _ pixels hpixels k
  rwa [drawUpper_level, sum_intoIter, sum_movedDown] at hlower

/-- What the two lines together cover of a pixel, the lower one moved down. -/
def Text.coverage (text : Text) (k : Place) : Nat :=
  text.upper.coverage k + movedDown text.scaledBaselineSpacing text.lower.coverage k

/-- The whole text: every pixel is what the glyphs of the two lines cover of
it. -/
theorem drawText_level {text : Text} (h : drawText true text = .ok image) (k : Place) :
    image.pixels.level k = min 255 (text.coverage k) := by
  unfold drawText at h
  obtain ⟨upperImage, hupper, h⟩ := Collect.bind_eq_ok.mp h
  obtain ⟨lowerImage, hlower, h⟩ := Collect.bind_eq_ok.mp h
  rw [drawImages_level h, drawString_level hupper, Text.coverage]
  unfold movedDown
  split
  · rw [drawString_level hlower]
    omega
  · omega

end Composition

/-! ## The two builds -/

section Builds

variable (checked : Bool)

variable (ascenderPx : Int32) (img : Glyph)

theorem agrees_actualX (x : Nat) : Agrees (img.actualX true x) (img.actualX checked x) :=
  (agrees_intOp checked _).bind fun _ => agrees_rfl.bind fun _ =>
    (agrees_intOp checked _).bind fun _ => agrees_rfl

theorem agrees_actualY (y : Nat) :
    Agrees (img.actualY true ascenderPx y) (img.actualY checked ascenderPx y) :=
  (agrees_intOp checked _).bind fun _ => agrees_rfl.bind fun _ =>
    (agrees_intOp checked _).bind fun _ => agrees_rfl

theorem agrees_drawPixel (y x : Nat) (pixels : PixelMap) :
    Agrees (img.drawPixel true ascenderPx y pixels x)
      (img.drawPixel checked ascenderPx y pixels x) := by
  refine (agrees_intOp checked _).bind fun row => (agrees_intOp checked _).bind fun i => ?_
  cases img.data[i.toNat]? with
  | none => exact agrees_rfl
  | some b =>
    dsimp only
    split
    · exact agrees_rfl
    · refine (agrees_actualX checked img x).bind fun actualX => ?_
      cases actualX with
      | none => exact agrees_rfl
      | some actualX => exact (agrees_actualY checked ascenderPx img y).bind fun _ => agrees_rfl

theorem agrees_drawString (line : Line) : Agrees (drawString true line) (drawString checked line) :=
  Agrees.bind (Agrees.foldlM (fun img _ pixels => Agrees.foldlM (fun y _ pixels =>
    Agrees.foldlM (fun x _ pixels => agrees_drawPixel checked line.ascenderPx img y x pixels)
      pixels) pixels) ∅) fun _ => agrees_rfl

theorem agrees_drawLower (scaledBaselineSpacing : UInt32) (pixels : PixelMap) (entry : Entry) :
    Agrees (drawLower true scaledBaselineSpacing pixels entry)
      (drawLower checked scaledBaselineSpacing pixels entry) :=
  (agrees_intOp checked _).bind fun _ => agrees_rfl

/-- Where the checked build does not panic, the other one draws the same. -/
theorem agrees_drawText (text : Text) : Agrees (drawText true text) (drawText checked text) :=
  (agrees_drawString checked _).bind fun _ => (agrees_drawString checked _).bind fun _ =>
    Agrees.bind (Agrees.foldlM (fun entry _ pixels => agrees_drawLower checked _ pixels entry) _)
      fun _ => agrees_rfl

end Builds

/-! ## The entries -/

namespace PixelMap

/-- Every entry holds something. -/
def Covered (pixels : PixelMap) : Prop := ∀ k ∈ pixels.keys, 0 < pixels.level k

variable {pixels : PixelMap} {k : Place} {b : UInt8}

theorem covered_empty : Covered ∅ := fun _ h => absurd h List.not_mem_nil

theorem Covered.add (h : pixels.Covered) (hb : b ≠ 0) : (pixels.add k b).Covered := by
  intro k' hk'
  have hpos : 0 < b.toNat := Nat.pos_of_ne_zero fun hzero => hb (UInt8.toNat_inj.mp hzero)
  rw [level_add]
  rcases (AList.mem_insert pixels).mp hk' with rfl | hold
  · rw [if_pos rfl]
    omega
  · have hlevel := h k' hold
    omega

theorem Covered.entry_ne (h : pixels.Covered) {entry : Entry} (hentry : entry ∈ pixels.entries) :
    entry.2 ≠ 0 := by
  intro hzero
  have hlookup : pixels.lookup entry.1 = some entry.2 := AList.mem_lookup_iff.mpr hentry
  have hpos := h entry.1 (List.mem_map_of_mem hentry)
  unfold level alpha at hpos
  rw [hlookup, hzero] at hpos
  cases hpos

/-- Then there is an entry exactly where there is something. -/
theorem Covered.mem_keys_iff (h : pixels.Covered) : k ∈ pixels.keys ↔ 0 < pixels.level k :=
  ⟨h k, mem_of_level_pos⟩

/-- So the levels say what the map is. -/
theorem Covered.lookup (h : pixels.Covered) (k : Place) :
    pixels.lookup k = if 0 < pixels.level k then some (.ofNat (pixels.level k)) else none := by
  split
  · next hpos =>
    obtain ⟨b, hb⟩ := Option.isSome_iff_exists.mp
      (AList.lookup_isSome.mpr (h.mem_keys_iff.mpr hpos))
    rw [level, alpha, hb, Option.getD_some, UInt8.ofNat_toNat]
  · next hzero => exact AList.lookup_eq_none.mpr fun hk => hzero (h k hk)

end PixelMap

section Entries

variable {checked : Bool}

theorem keeps_drawPixel (ascenderPx : Int32) (img : Glyph) (y x : Nat) :
    Keeps PixelMap.Covered fun pixels => img.drawPixel checked ascenderPx y pixels x := by
  intro pixels pixels' hcovered h
  simp only [Glyph.drawPixel, Collect.bind_eq_ok] at h
  obtain ⟨row, _, i, _, h⟩ := h
  cases hb : img.data[i.toNat]? with
  | none =>
    rw [hb] at h
    cases h
  | some b =>
    simp only [hb] at h
    split at h
    · cases h
      exact hcovered
    · next hne =>
      obtain ⟨actualX, _, h⟩ := Collect.bind_eq_ok.mp h
      cases actualX with
      | none =>
        cases h
        exact hcovered
      | some actualX =>
        obtain ⟨actualY, _, h⟩ := Collect.bind_eq_ok.mp h
        cases actualY with
        | none =>
          cases h
          exact hcovered
        | some actualY =>
          cases h
          exact hcovered.add hne

theorem drawString_covered {line : Line} {image : Image}
    (h : drawString checked line = .ok image) : image.pixels.Covered := by
  obtain ⟨pixels, hpixels, hlast⟩ := Collect.bind_eq_ok.mp h
  cases hlast
  exact Keeps.foldlM (fun img _ => Keeps.foldlM fun y _ => Keeps.foldlM fun x _ =>
    keeps_drawPixel line.ascenderPx img y x) ∅ pixels PixelMap.covered_empty hpixels

variable {upperOrder lowerOrder : HashOrder} {upperImage lowerImage image : Image}
  {scaledBaselineSpacing : UInt32}

theorem intoIter_ne (order : HashOrder) {pixels : PixelMap} (h : pixels.Covered) {entry : Entry}
    (hentry : entry ∈ order.intoIter pixels) : entry.2 ≠ 0 :=
  h.entry_ne ((order.perm pixels).mem_iff.mp hentry)

theorem drawUpper_covered (h : upperImage.pixels.Covered) :
    ((upperOrder.intoIter upperImage.pixels).foldl drawUpper ∅).Covered := by
  have hkeeps : Keeps (ε := Panic) PixelMap.Covered fun pixels =>
      (upperOrder.intoIter upperImage.pixels).foldlM
        (fun pixels entry => pure (drawUpper pixels entry)) pixels := by
    refine Keeps.foldlM fun entry hentry pixels pixels' hpixels hrun => ?_
    cases hrun
    exact hpixels.add (intoIter_ne upperOrder h hentry)
  exact hkeeps ∅ _ PixelMap.covered_empty List.foldlM_pure

theorem drawImages_covered
    (h : drawImages checked upperOrder lowerOrder upperImage lowerImage scaledBaselineSpacing =
      .ok image) (hupper : upperImage.pixels.Covered) (hlower : lowerImage.pixels.Covered) :
    image.pixels.Covered := by
  obtain ⟨pixels, hpixels, hlast⟩ := Collect.bind_eq_ok.mp h
  cases hlast
  refine Keeps.foldlM (fun entry hentry pixels pixels' hcovered hrun => ?_) _ pixels
    (drawUpper_covered hupper) hpixels
  obtain ⟨y, _, hlast⟩ := Collect.bind_eq_ok.mp hrun
  cases hlast
  exact hcovered.add (intoIter_ne lowerOrder hlower hentry)

theorem drawText_covered {text : Text} (h : drawText checked text = .ok image) :
    image.pixels.Covered := by
  obtain ⟨upperImage, hupper, h⟩ := Collect.bind_eq_ok.mp h
  obtain ⟨lowerImage, hlower, h⟩ := Collect.bind_eq_ok.mp h
  exact drawImages_covered h (drawString_covered hupper) (drawString_covered hlower)

theorem drawText_height {text : Text} (h : drawText checked text = .ok image) :
    image.height = image.maxYCoordinate := by
  obtain ⟨upperImage, _, h⟩ := Collect.bind_eq_ok.mp h
  obtain ⟨lowerImage, _, h⟩ := Collect.bind_eq_ok.mp h
  obtain ⟨pixels, _, hlast⟩ := Collect.bind_eq_ok.mp h
  cases hlast
  rfl

/-- There is an entry exactly where the text covers something. -/
theorem mem_keys_drawText {text : Text} (h : drawText true text = .ok image) {k : Place} :
    k ∈ image.pixels.keys ↔ 0 < text.coverage k := by
  have hlevel := drawText_level h k
  rw [(drawText_covered h).mem_keys_iff]
  omega

theorem drawText_width {text : Text} (h : drawText checked text = .ok image) :
    image.width.toNat = max text.upper.finalWidth.toNat text.lower.finalWidth.toNat := by
  obtain ⟨upperImage, hupper, h⟩ := Collect.bind_eq_ok.mp h
  obtain ⟨lowerImage, hlower, h⟩ := Collect.bind_eq_ok.mp h
  obtain ⟨_, _, hlast⟩ := Collect.bind_eq_ok.mp h
  obtain ⟨_, _, hupper⟩ := Collect.bind_eq_ok.mp hupper
  obtain ⟨_, _, hlower⟩ := Collect.bind_eq_ok.mp hlower
  cases hlast
  cases hupper
  cases hlower
  have hupper := text.upper.finalWidth.toNat_lt
  have hlower := text.lower.finalWidth.toNat_lt
  exact UInt32.toNat_ofNat_of_lt' (Nat.max_lt.mpr ⟨hupper, hlower⟩)

/-- The image shows the text: as wide as the longer line, every pixel with all
that covers it, an entry for each covered pixel, and the last row with one as
the height. -/
structure Text.Shows (text : Text) (image : Image) : Prop where
  width : image.width.toNat = max text.upper.finalWidth.toNat text.lower.finalWidth.toNat
  level : ∀ k, image.pixels.level k = min 255 (text.coverage k)
  keys : ∀ k, k ∈ image.pixels.keys ↔ 0 < text.coverage k
  le_height : ∀ k, 0 < text.coverage k → k.2.toNat ≤ image.height.toNat
  last : (∃ k, 0 < text.coverage k) → ∃ k, 0 < text.coverage k ∧ k.2 = image.height
  blank : (∀ k, text.coverage k = 0) → image.height = 0

theorem drawText_shows {text : Text} (h : drawText true text = .ok image) : text.Shows image := by
  have hkeys : ∀ k, k ∈ image.pixels.keys ↔ 0 < text.coverage k := fun k => mem_keys_drawText h
  refine ⟨drawText_width h, drawText_level h, hkeys, ?_, ?_, ?_⟩
  · intro k hk
    have hk := (hkeys k).mpr hk
    rw [drawText_height h]
    exact (Image.maxYCoordinate_spec (List.ne_nil_of_mem hk)).2 k hk
  · rintro ⟨k, hk⟩
    have hk := (hkeys k).mpr hk
    obtain ⟨last, hlast, hrow⟩ := (Image.maxYCoordinate_spec (List.ne_nil_of_mem hk)).1
    exact ⟨last, (hkeys last).mp hlast, hrow.trans (drawText_height h).symm⟩
  · intro hblank
    have hnil : image.pixels.keys = [] := List.eq_nil_iff_forall_not_mem.mpr fun k hk =>
      absurd (hblank k) (Nat.ne_of_gt ((hkeys k).mp hk))
    rw [drawText_height h, Image.maxYCoordinate, hnil]
    rfl

/-- There is one such image. -/
theorem Text.Shows.same {text : Text} {image' : Image} (h : text.Shows image)
    (h' : text.Shows image') : image.Same image' where
  width := UInt32.toNat_inj.mp (h.width.trans h'.width.symm)
  height := by
    by_cases hsome : ∃ k, 0 < text.coverage k
    · obtain ⟨k, hk, hrow⟩ := h.last hsome
      obtain ⟨k', hk', hrow'⟩ := h'.last hsome
      have hle := h'.le_height k hk
      have hge := h.le_height k' hk'
      rw [hrow] at hle
      rw [hrow'] at hge
      exact UInt32.toNat_inj.mp (Nat.le_antisymm hle hge)
    · have hblank : ∀ k, text.coverage k = 0 := fun k =>
        Nat.eq_zero_of_not_pos fun hk => hsome ⟨k, hk⟩
      rw [h.blank hblank, h'.blank hblank]
  lookup k := by
    have hcovered : ∀ {image : Image}, text.Shows image → image.pixels.Covered :=
      fun h k hk => by
        have hpos := (h.keys k).mp hk
        rw [h.level]
        omega
    rw [(hcovered h).lookup, (hcovered h').lookup, h.level, h'.level]

/-- In no order of the hash maps is there an overflow if there is none in
one. -/
theorem exists_drawText_reordered {text : Text} (h : drawText checked text = .ok image)
    (upperOrder lowerOrder : HashOrder) :
    ∃ image', drawText checked { text with upperOrder, lowerOrder } = .ok image' := by
  obtain ⟨upperImage, hupper, h⟩ := Collect.bind_eq_ok.mp h
  obtain ⟨lowerImage, hlower, h⟩ := Collect.bind_eq_ok.mp h
  obtain ⟨pixels, hpixels, _⟩ := Collect.bind_eq_ok.mp h
  have hperm : (lowerOrder.intoIter lowerImage.pixels).Perm
      (text.lowerOrder.intoIter lowerImage.pixels) :=
    (lowerOrder.perm _).trans (text.lowerOrder.perm _).symm
  obtain ⟨pixels', hpixels'⟩ := Collect.exists_foldlM_ok_of_perm hperm (fun entry _ _ hturn _ => by
    obtain ⟨y, hy, _⟩ := Collect.bind_eq_ok.mp hturn
    exact ⟨_, Collect.bind_eq_ok.mpr ⟨y, hy, rfl⟩⟩) hpixels
    ((upperOrder.intoIter upperImage.pixels).foldl drawUpper ∅)
  exact ⟨_, Collect.bind_eq_ok.mpr ⟨upperImage, hupper, Collect.bind_eq_ok.mpr ⟨lowerImage, hlower,
    Collect.bind_eq_ok.mpr ⟨pixels', hpixels', rfl⟩⟩⟩⟩

/-- What `draw_text` draws where nothing overflows: the text, the same image in
both builds, and in whatever order the hash maps are gone through. -/
theorem drawText_covers (checked : Bool) (text : Text) (image : Image)
    (h : drawText true text = .ok image) :
    text.Shows image ∧ drawText checked text = .ok image ∧
      ∀ upperOrder lowerOrder : HashOrder, ∃ image',
        drawText checked { text with upperOrder, lowerOrder } = .ok image' ∧ image'.Same image := by
  refine ⟨drawText_shows h, agrees_drawText checked text image h, fun upperOrder lowerOrder => ?_⟩
  obtain ⟨image', h'⟩ := exists_drawText_reordered h upperOrder lowerOrder
  -- what covers a pixel has nothing to do with the orders
  have hshows : text.Shows image' := { drawText_shows h' with }
  exact ⟨image', agrees_drawText checked _ image' h', hshows.same (drawText_shows h)⟩

/-- Two glyphs that overlap in their first row. -/
def overlap : Text where
  upper := ⟨2, [⟨0, 0, 2, 1, 1, [200]⟩], 1⟩
  lower := ⟨2, [⟨0, 0, 2, 1, 2, [100, 50]⟩], 1⟩
  scaledBaselineSpacing := 0
  upperOrder := .insertion
  lowerOrder := .insertion

theorem drawText_covers_overlap :
    ∃ image, overlap.Shows image ∧ drawText false overlap = .ok image ∧ ∃ image',
      drawText false { overlap with upperOrder := .reversed, lowerOrder := .reversed } =
        .ok image' ∧ image'.Same image := by
  obtain ⟨hshows, hdrawn, hreordered⟩ := drawText_covers false overlap _ rfl
  exact ⟨_, hshows, hdrawn, hreordered .reversed .reversed⟩

end Entries

/-! ## What is shown -/

section Blocks

variable {β : Type} {f : Nat → List β} {m n : Nat}

theorem length_flatMap_blocks (hlen : ∀ i, (f i).length = m) :
    ((List.range n).flatMap f).length = n * m := by
  simp [List.length_flatMap, hlen]

/-- Blocks of one length after each other: what stands where. -/
theorem getElem?_flatMap_blocks (hlen : ∀ i, (f i).length = m) {i j : Nat} (hi : i < n)
    (hj : j < m) : ((List.range n).flatMap f)[i * m + j]? = (f i)[j]? := by
  induction n with
  | zero => cases hi
  | succ n ih =>
    have hlength := length_flatMap_blocks (n := n) hlen
    rw [List.range_succ, List.flatMap_append, List.flatMap_singleton]
    rcases Nat.lt_succ_iff_lt_or_eq.mp hi with hlt | rfl
    · have hle := Nat.mul_le_mul_right m hlt
      rw [Nat.succ_mul] at hle
      rw [List.getElem?_append_left (by omega), ih hlt]
    · rw [List.getElem?_append_right (by omega), hlength, Nat.add_sub_cancel_left]

end Blocks

namespace Image

variable (image : Image)

/-- The bytes of a row. -/
def rowBytes (y : Nat) : List UInt8 :=
  (List.range image.width.toNat).flatMap fun x =>
    Endian.toBytes .little 4 (argb (image.pixels.alpha (.ofNat x, .ofNat y))).toNat

theorem length_rowBytes (y : Nat) : (image.rowBytes y).length = image.width.toNat * 4 :=
  length_flatMap_blocks fun _ => Endian.length_toBytes ..

theorem length_argbBytes :
    image.argbBytes.length = image.height.toNat * (image.width.toNat * 4) :=
  length_flatMap_blocks image.length_rowBytes

/-- The pixel in the column `x` of the row `y` has four bytes, all of which
are its alpha value. -/
theorem getElem?_argbBytes {x y j : Nat} (hx : x < image.width.toNat)
    (hy : y < image.height.toNat) (hj : j < 4) :
    image.argbBytes[y * (image.width.toNat * 4) + (x * 4 + j)]? =
      some (image.pixels.alpha (.ofNat x, .ofNat y)) := by
  have hrow : image.argbBytes[y * (image.width.toNat * 4) + (x * 4 + j)]? =
      (image.rowBytes y)[x * 4 + j]? :=
    getElem?_flatMap_blocks image.length_rowBytes hy (by omega)
  have hpixel : (image.rowBytes y)[x * 4 + j]? =
      (Endian.toBytes .little 4 (argb (image.pixels.alpha (.ofNat x, .ofNat y))).toNat)[j]? :=
    getElem?_flatMap_blocks (fun _ => Endian.length_toBytes ..) hx hj
  rw [hrow, hpixel, toBytes_argb]
  match j with
  | 0 | 1 | 2 | 3 => rfl

end Image

end WhaleLand.ActivateLinux
