import WhaleLand.ClientSession

/-!
# What a `configure` event leads to

The handler of `configure` draws the text, makes both sizes of the image
divisible by the scale, and shows the image in a buffer of its own. It gets
through this exactly if no call fails and the text fits (`Fits`): the scale has
an absolute value, the text can be drawn, and the enlarged image has a pixel
and no more bytes than an `i32` counts. Then it has made the same fifteen steps
as always, with sizes that agree with each other, for the latest layer surface,
whichever one was to be configured (`configure_presents`). Where nothing
overflows in drawing, the buffer has every covered pixel but for the last row,
which is there only if the scale does not divide its number (`shown_iff`).
-/

namespace WhaleLand.ActivateLinux

open Program Wlproto Dispatch

/-! ## Sizes that the scale divides -/

section Sizes

/-- The least multiple of `m` from `n` on. -/
def roundUp (m n : Nat) : Nat := (n + (m - 1)) / m * m

variable {m n r : Nat}

theorem dvd_roundUp (m n : Nat) : m ∣ roundUp m n := Nat.dvd_mul_left _ _

theorem le_roundUp (hm : 0 < m) : n ≤ roundUp m n := by
  have hdiv := Nat.div_add_mod (n + (m - 1)) m
  have hmod := Nat.mod_lt (n + (m - 1)) hm
  rw [Nat.mul_comm] at hdiv
  unfold roundUp
  omega

theorem roundUp_lt (hm : 0 < m) : roundUp m n < n + m := by
  have hle := Nat.div_mul_le_self (n + (m - 1)) m
  unfold roundUp
  omega

/-- It is the only multiple that is so close. -/
theorem eq_roundUp (hm : 0 < m) (hdvd : m ∣ r) (hle : n ≤ r) (hlt : r < n + m) :
    r = roundUp m n := by
  obtain ⟨a, rfl⟩ := hdvd
  obtain ⟨b, hb⟩ := dvd_roundUp m n
  have hle' := le_roundUp (n := n) hm
  have hlt' := roundUp_lt (n := n) hm
  rw [hb] at hle' hlt' ⊢
  have hab : a < b + 1 := Nat.lt_of_mul_lt_mul_left (a := m) (by rw [Nat.mul_succ]; omega)
  have hba : b < a + 1 := Nat.lt_of_mul_lt_mul_left (a := m) (by rw [Nat.mul_succ]; omega)
  rw [Nat.le_antisymm (Nat.le_of_lt_succ hab) (Nat.le_of_lt_succ hba)]

theorem roundUp_of_dvd (hm : 0 < m) (hdvd : m ∣ n) : roundUp m n = n :=
  (eq_roundUp hm hdvd (Nat.le_refl n) (Nat.lt_add_of_pos_right hm)).symm

theorem roundUp_succ (hm : 0 < m) (hdvd : ¬ m ∣ n) : roundUp m (n + 1) = roundUp m n := by
  have hle := le_roundUp (n := n) hm
  have hlt := roundUp_lt (n := n) hm
  have hne : roundUp m n ≠ n := fun heq => hdvd (heq ▸ dvd_roundUp m n)
  exact (eq_roundUp hm (dvd_roundUp m n) (by omega) (by omega)).symm

theorem not_lt_roundUp {k : Nat} (hm : 0 < m) (hdvd : ¬ m ∣ n) (hk : k ≤ n + 1) :
    ¬ roundUp m n < k := by
  have hle := le_roundUp (n := n + 1) hm
  rw [roundUp_succ hm hdvd] at hle
  omega

theorem toNat_ofNat (h : n < 4294967296) : (UInt32.ofNat n).toNat = n :=
  UInt32.toNat_ofNat_of_lt' h

variable {checked : Bool} {scale : UInt32}

/-- The loop stops at the least multiple. Where there is none in `u32`, it
panics or starts again at 0, which is one. -/
theorem grow_eq (hscale : scale ≠ 0) (v : UInt32) :
    grow checked scale v =
      if roundUp scale.toNat v.toNat < 4294967296 then
        .ok (.ofNat (roundUp scale.toNat v.toNat))
      else if checked then .error .overflow else .ok 0 := by
  have hpos : 0 < scale.toNat := Nat.pos_of_ne_zero fun h => hscale (UInt32.toNat_inj.mp h)
  have hzero : ∀ v : UInt32, v % scale = 0 ↔ scale.toNat ∣ v.toNat := fun v => by
    rw [← UInt32.toNat_inj, UInt32.toNat_mod, Nat.dvd_iff_mod_eq_zero]
    rfl
  fun_induction grow checked scale v with
  | case1 _ h => exact absurd h hscale
  | case2 v _ hmod =>
    rw [roundUp_of_dvd hpos ((hzero v).mp hmod), if_pos v.toNat_lt, UInt32.ofNat_toNat]
  | case3 v _ hmod next hnext ih =>
    have hdvd := mt (hzero v).mpr hmod
    have hop := u32Op_natCast checked (v.toNat + 1)
    rw [Int.natCast_succ, hnext] at hop
    rw [ih]
    rcases Nat.lt_or_ge (v.toNat + 1) 4294967296 with hlt | hge
    · rw [if_pos (.inl hlt)] at hop
      cases hop
      rw [UInt32.toNat_ofNat_of_lt' hlt, roundUp_succ hpos hdvd]
    · -- the next number is 0, which the scale divides
      have hlast : v.toNat + 1 = 4294967296 := Nat.le_antisymm v.toNat_lt hge
      rw [if_neg (not_lt_roundUp hpos hdvd hge)]
      cases checked with
      | true =>
        rw [if_neg (by simp [hlast])] at hop
        cases hop
      | false =>
        rw [if_pos (.inr rfl), hlast] at hop
        cases hop
        have hdvd₀ : scale.toNat ∣ (UInt32.ofNat 4294967296).toNat := Nat.dvd_zero scale.toNat
        rw [roundUp_of_dvd hpos hdvd₀]
        rfl
  | case4 v _ hmod p hp =>
    have hdvd := mt (hzero v).mpr hmod
    have hop := u32Op_natCast checked (v.toNat + 1)
    rw [Int.natCast_succ, hp] at hop
    split at hop
    · cases hop
    · next hover =>
      cases hop
      rw [not_or, Nat.not_lt, Bool.not_eq_false] at hover
      rw [if_neg (not_lt_roundUp hpos hdvd hover.1), if_pos hover.2]

end Sizes

/-! ## The scaled text -/

section ScaledText

/-- The image with a size that the scale divides. -/
def paddedImage (scale : Int32) (image : Image) : Image :=
  { image with
    width := .ofNat (roundUp scale.toInt.natAbs image.width.toNat)
    height := .ofNat (roundUp scale.toInt.natAbs image.height.toNat) }

/-- The text can be drawn and shown at this scale. -/
structure Fits (env : Environment) (scale : Int32) (text : Text) (image : Image) : Prop where
  found : env.text scale = .ok text
  drawn : drawText env.checked text = .ok image
  scale_ne_zero : scale.toInt ≠ 0
  scale_ne_min : scale.toInt ≠ -2147483648
  pos : 0 < roundUp scale.toInt.natAbs image.height.toNat *
    (roundUp scale.toInt.natAbs image.width.toNat * 4)
  le : roundUp scale.toInt.natAbs image.height.toNat *
    (roundUp scale.toInt.natAbs image.width.toNat * 4) ≤ 2147483647

variable {env : Environment} {checked : Bool} {scale : Int32} {a : UInt32} {text : Text}
  {image textImage : Image} {bytes : List UInt8}

theorem i32Op_natAbs (checked : Bool) (h : scale.toInt ≠ -2147483648) :
    ∃ v : Int32, i32Op checked scale.toInt.natAbs = .ok v ∧ v.toInt = scale.toInt.natAbs := by
  have hlo := scale.le_toInt
  have hhi := scale.toInt_lt
  have hv : (Int32.ofInt scale.toInt.natAbs).toInt = scale.toInt.natAbs :=
    Int32.toInt_ofInt_of_le (by omega) (by omega)
  exact ⟨_, by rw [← hv, i32Op_toInt, hv], hv⟩

/-- The absolute value is a number unless it is 2³¹. -/
theorem preferredScaleU32_eq_ok :
    preferredScaleU32 checked scale = .ok a ↔
      scale.toInt ≠ -2147483648 ∧ a.toNat = scale.toInt.natAbs := by
  simp only [preferredScaleU32, Collect.bind_eq_ok, unwrapConverted_eq_ok, u32TryFrom_eq_some]
  constructor
  · rintro ⟨abs, habs, ha⟩
    by_cases hmin : scale.toInt = -2147483648
    · -- where it wraps around, it is negative
      rw [hmin] at habs
      cases checked with
      | false =>
        cases habs
        have hwrapped : (a.toNat : Int) = -2147483648 := ha
        omega
      | true =>
        have hlt := abs.toInt_lt
        rw [i32Op_checked habs] at hlt
        exact absurd hlt (by decide)
    · obtain ⟨v, hv, hvalue⟩ := i32Op_natAbs checked hmin
      cases habs.symm.trans hv
      rw [hvalue] at ha
      exact ⟨hmin, by exact_mod_cast ha⟩
  · rintro ⟨hmin, ha⟩
    obtain ⟨v, hv, hvalue⟩ := i32Op_natAbs checked hmin
    exact ⟨v, hv, by rw [hvalue, ha]⟩

theorem toWhiteArgbLe_eq_ok (h : textImage.toWhiteArgbLe checked = .ok bytes) :
    bytes = textImage.argbBytes := by
  obtain ⟨_, _, h⟩ := Collect.bind_eq_ok.mp h
  obtain ⟨_, _, h⟩ := Collect.bind_eq_ok.mp h
  exact (Except.ok.inj h).symm

theorem toWhiteArgbLe_of_le
    (h : textImage.height.toNat * (textImage.width.toNat * 4) ≤ 2147483647) :
    textImage.toWhiteArgbLe checked = .ok textImage.argbBytes := by
  have hbytes : textImage.height.toNat * (textImage.width.toNat * 4) =
      textImage.width.toNat * textImage.height.toNat * 4 := by
    rw [← Nat.mul_assoc, Nat.mul_comm textImage.height.toNat]
  rw [hbytes] at h
  have hcount : u32Op checked (textImage.width.toNat * textImage.height.toNat) =
      .ok (.ofNat (textImage.width.toNat * textImage.height.toNat)) := by
    rw [← Int.natCast_mul, u32Op_natCast, if_pos (.inl (by omega))]
  have hlen : (UInt32.ofNat (textImage.width.toNat * textImage.height.toNat)).toNat =
      textImage.width.toNat * textImage.height.toNat := toNat_ofNat (by omega)
  have hcapacity : u32Op checked (textImage.width.toNat * textImage.height.toNat * 4 : Nat) =
      .ok (.ofNat (textImage.width.toNat * textImage.height.toNat * 4)) := by
    rw [u32Op_natCast, if_pos (.inl (by omega))]
  refine Collect.bind_eq_ok.mpr ⟨_, hcount, Collect.bind_eq_ok.mpr ⟨.ofNat
    (textImage.width.toNat * textImage.height.toNat * 4), ?_, rfl⟩⟩
  rw [hlen]
  exact_mod_cast hcapacity

/-- Both sizes are numbers. -/
theorem Fits.sizes (h : Fits env scale text image) :
    (paddedImage scale image).width.toNat = roundUp scale.toInt.natAbs image.width.toNat ∧
      (paddedImage scale image).height.toNat = roundUp scale.toInt.natAbs image.height.toNat := by
  have hpos := h.pos
  have hle := h.le
  have hwidth := Nat.le_mul_of_pos_left
    (roundUp scale.toInt.natAbs image.width.toNat * 4) (Nat.pos_of_mul_pos_right hpos)
  have hheight := Nat.le_mul_of_pos_right
    (roundUp scale.toInt.natAbs image.height.toNat) (Nat.pos_of_mul_pos_left hpos)
  exact ⟨toNat_ofNat (by omega), toNat_ofNat (by omega)⟩

theorem natAbs_pos (h : scale.toInt ≠ 0) (ha : a.toNat = scale.toInt.natAbs) : a ≠ 0 := by
  rintro rfl
  exact h (Int.natAbs_eq_zero.mp ha.symm)

theorem Fits.scaledText (h : Fits env scale text image) :
    ∃ a : UInt32, a.toNat = scale.toInt.natAbs ∧ LayerSurfaceHandler.scaledText env scale =
      .ok (a, paddedImage scale image, (paddedImage scale image).argbBytes) := by
  obtain ⟨hwidth, hheight⟩ := h.sizes
  have hlo := scale.le_toInt
  have hhi := scale.toInt_lt
  have ha : (UInt32.ofNat scale.toInt.natAbs).toNat = scale.toInt.natAbs := toNat_ofNat (by omega)
  have hne := natAbs_pos h.scale_ne_zero ha
  refine ⟨_, ha, ?_⟩
  simp only [LayerSurfaceHandler.scaledText, Collect.bind_eq_ok]
  refine ⟨text, by rw [h.found]; rfl, image, h.drawn, _,
    preferredScaleU32_eq_ok.mpr ⟨h.scale_ne_min, ha⟩, _, ?_, _, ?_, _, ?_, rfl⟩
  · rw [grow_eq hne, ha, if_pos (hwidth ▸ UInt32.toNat_lt _)]
  · rw [grow_eq hne, ha, if_pos (hheight ▸ UInt32.toNat_lt _)]
  · have hsize : (paddedImage scale image).height.toNat *
        ((paddedImage scale image).width.toNat * 4) ≤ 2147483647 := by
      rw [hwidth, hheight]
      exact h.le
    exact toWhiteArgbLe_of_le hsize

/-- A size that is not 0 is the least multiple. -/
theorem grow_eq_ok {checked : Bool} {scale v grown : UInt32} (hscale : scale ≠ 0)
    (h : grow checked scale v = .ok grown) (hne : grown ≠ 0) :
    grown = .ofNat (roundUp scale.toNat v.toNat) ∧ grown.toNat = roundUp scale.toNat v.toNat := by
  rw [grow_eq hscale] at h
  split at h
  · next hlt =>
    cases h
    exact ⟨rfl, toNat_ofNat hlt⟩
  · split at h
    · cases h
    · cases h
      exact absurd rfl hne

/-- What is drawn is the image that fits. -/
theorem Fits.bounds (h : Fits env scale text image)
    (hdrawn : LayerSurfaceHandler.scaledText env scale = .ok (a, textImage, bytes)) :
    0 < bytes.length ∧ bytes.length ≤ 2147483647 ∧ textImage.width.toNat * 4 ≤ 2147483647 ∧
      textImage.height.toNat ≤ 2147483647 := by
  obtain ⟨hwidth, hheight⟩ := h.sizes
  obtain ⟨a', _, hscaled⟩ := h.scaledText
  cases hscaled.symm.trans hdrawn
  have hpos := h.pos
  have hle := h.le
  rw [← hwidth, ← hheight] at hpos hle
  have hwidth' := Nat.le_mul_of_pos_left
    ((paddedImage scale image).width.toNat * 4) (Nat.pos_of_mul_pos_right hpos)
  have hheight' := Nat.le_mul_of_pos_right
    (paddedImage scale image).height.toNat (Nat.pos_of_mul_pos_left hpos)
  rw [Image.length_argbBytes]
  exact ⟨hpos, hle, hwidth'.trans hle, hheight'.trans hle⟩

theorem fits_of_scaledText
    (h : LayerSurfaceHandler.scaledText env scale = .ok (a, textImage, bytes))
    (hpos : 0 < bytes.length) (hle : bytes.length ≤ 2147483647) :
    ∃ text image, Fits env scale text image ∧ textImage = paddedImage scale image := by
  simp only [LayerSurfaceHandler.scaledText, Collect.bind_eq_ok] at h
  obtain ⟨text, htext, image, himage, a', ha', width, hwidth, height, hheight, bytes', hbytes, h⟩ :=
    h
  cases h
  cases toWhiteArgbLe_eq_ok hbytes
  obtain ⟨hmin, ha⟩ := preferredScaleU32_eq_ok.mp ha'
  have hfound : env.text scale = .ok text := by
    cases hfound : env.text scale with
    | error msg =>
      rw [hfound] at htext
      cases htext
    | ok text' =>
      rw [hfound] at htext
      cases htext
      rfl
  have hne : a ≠ 0 := by
    rintro rfl
    rw [grow, if_pos rfl] at hwidth
    cases hwidth
  rw [Image.length_argbBytes] at hpos hle
  obtain ⟨hw, hw'⟩ := grow_eq_ok hne hwidth fun hzero => by simp [hzero] at hpos
  obtain ⟨hh, hh'⟩ := grow_eq_ok hne hheight fun hzero => by simp [hzero] at hpos
  rw [ha] at hw hh hw' hh'
  rw [hw', hh'] at hpos hle
  refine ⟨text, image, ⟨hfound, himage, fun hzero => ?_, hmin, hpos, hle⟩, ?_⟩
  · exact hne (UInt32.toNat_inj.mp (ha.trans (Int.natAbs_eq_zero.mpr hzero)))
  · rw [paddedImage, ← hw, ← hh]

end ScaledText

/-! ## The steps of the handler -/

section Actions

variable (t : Target)

def sentRequest (objectId : ObjectId) (k : Nat) (vs : List Value) : Action :=
  .sent (requestPacket t objectId k vs)

def placeActions (layerSurface : ObjectId) (textImage : Image) (a : UInt32) : List Action :=
  [sentRequest t layerSurface 0 [.uint (textImage.width / a), .uint (textImage.height / a)],
    sentRequest t layerSurface 1 [.uint (anchorBottom ||| anchorRight)],
    sentRequest t layerSurface 3 [.int 0, .int rightMargin, .int bottomMargin, .int 0]]

def bufferActions (shm shmPool buffer : ObjectId) (sharedMemory : RawFd) (textImage : Image)
    (bytes : List UInt8) : List Action :=
  [.createdMemory sharedMemory,
    .setLength sharedMemory bytes.length,
    sentRequest t shm 0 [.newId ⟨shmPool⟩, .fd sharedMemory, .int (.ofInt bytes.length)],
    sentRequest t shmPool 0 [.newId ⟨buffer⟩, .int 0, .int (.ofInt textImage.width.toNat),
      .int (.ofInt textImage.height.toNat), .int (.ofInt (textImage.width.toNat * 4)),
      .uint formatArgb8888],
    .written sharedMemory bytes]

def showActions (surface buffer emptyRegion : ObjectId) (scale : Int32) : List Action :=
  [sentRequest t surface 1 [.object (some buffer), .int 0, .int 0],
    sentRequest t surface 8 [.int scale],
    sentRequest t surface 5 [.object (some emptyRegion)],
    sentRequest t surface 6 []]

/-- The objects and the memory that a `configure` is answered with. -/
structure Presentation where
  layerSurface : ObjectId
  compositor : ObjectId
  shm : ObjectId
  surface : ObjectId
  emptyRegion : ObjectId
  shmPool : ObjectId
  buffer : ObjectId
  sharedMemory : RawFd

/-- Everything that the handler of `configure` does. -/
def Presentation.actions (v : Presentation) (serial a : UInt32) (scale : Int32)
    (textImage : Image) : List Action :=
  sentRequest t v.layerSurface 6 [.uint serial] :: placeActions t v.layerSurface textImage a ++
    sentRequest t v.compositor 1 [.newId ⟨v.emptyRegion⟩] ::
      bufferActions t v.shm v.shmPool v.buffer v.sharedMemory textImage textImage.argbBytes ++
    showActions t v.surface v.buffer v.emptyRegion scale ++ [.closed v.sharedMemory]

end Actions

/-- All calls succeed. -/
structure Environment.Obliges (env : Environment) : Prop where
  sends : ∀ log packet, env.sends log packet = true
  newAnonymous : ∀ log, (env.newAnonymous log).isSome
  setsLength : ∀ log fd (length : Int), 0 ≤ length → env.setsLength log fd length = true
  maps : ∀ log fd (length : Int), 0 < length → env.maps log fd length = true

/-- No text fits at this scale. -/
def Unfit (env : Environment) (scale : Int32) : Prop := ∀ text image, ¬ Fits env scale text image

/-- How the client stops: a call has failed, or something is true of it. -/
def Refuses (env : Environment) (P : Prop) (_ : Stop) (_ : Client) : Prop := env.Obliges → P

section Steps

/-- The value is one word, or a file descriptor. -/
def isWord : Value → Bool
  | .uint _ | .int _ | .fixed _ | .object _ | .newId _ | .fd _ => true
  | .string _ | .newObject _ | .array _ => false

variable {env : Environment} {c : Client} {scale : Int32} {a : UInt32} {textImage : Image}
  {bytes : List UInt8} {Q : Unit → Client → Prop}

theorem pushable_of_isWord {vs : List Value} (h : vs.all isWord = true) :
    ∀ v ∈ vs, v.Pushable := by
  intro v hv
  have hword := List.all_eq_true.mp h v hv
  cases v with
  | string _ | newObject _ | array _ => cases hword
  | uint _ | int _ | fixed _ | object _ | newId _ | fd _ => trivial

theorem length_encodeAll_of_isWord (t : Target) {vs : List Value} (h : vs.all isWord = true) :
    (encodeAll t vs).length ≤ 4 * vs.length := by
  induction vs with
  | nil => exact Nat.le_refl 0
  | cons v vs ih =>
    rw [List.all_cons, Bool.and_eq_true] at h
    have hrest := ih h.2
    have hfirst : (encode t v).length ≤ 4 := by
      cases v with
      | string _ | newObject _ | array _ => cases h.1
      | uint _ | int _ | fixed _ | object _ | newId _ | fd _ => simp [encode]
    rw [encodeAll, List.flatMap_cons, List.length_append, List.length_cons]
    rw [encodeAll] at hrest
    omega

/-- A request that is short enough goes out unless sending fails. -/
theorem ends_request_sendable (k : Nat) {interface : Interface} {name : String} {args : List Arg}
    {objectId : ObjectId} {vs : List Value} {msg : String} {P : Prop}
    (hmem : interface ∈ clientInterfaces) (hreq : interface.requests[k]? = some ⟨name, args⟩)
    (hty : WellTyped args vs) (hpush : ∀ v ∈ vs, v.Pushable)
    (hsend : (requestPacket env.target objectId k vs).Sendable)
    (hQ : Q () (c.acting (sentRequest env.target objectId k vs))) :
    Ends (send env interface name objectId vs msg) c Q (Refuses env P) :=
  ends_request k hmem hreq hty hpush (fun _ => hQ) fun hfails hobliges =>
    absurd ((hobliges.sends _ _).symm.trans (hfails hsend)) (by decide)

/-- So does a request of words. -/
theorem ends_request_words (k : Nat) {interface : Interface} {name : String} {args : List Arg}
    {objectId : ObjectId} {vs : List Value} {msg : String} {P : Prop}
    (hmem : interface ∈ clientInterfaces) (hreq : interface.requests[k]? = some ⟨name, args⟩)
    (hty : WellTyped args vs) (hwords : vs.all isWord = true) (hlen : vs.length ≤ 16)
    (hQ : Q () (c.acting (sentRequest env.target objectId k vs))) :
    Ends (send env interface name objectId vs msg) c Q (Refuses env P) := by
  have hbytes := length_encodeAll_of_isWord env.target hwords
  have hsend : (requestPacket env.target objectId k vs).Sendable := by
    show 8 + (encodeAll env.target vs).length ≤ 65535
    omega
  exact ends_request_sendable k hmem hreq hty (pushable_of_isWord hwords) hsend hQ

theorem toInt_ofInt {n : Nat} (h : n ≤ 2147483647) : (Int32.ofInt n).toInt = n :=
  Int32.toInt_ofInt_of_le (by omega) (by omega)

theorem eq_ofInt {w : Int32} {n : Int} (h : w.toInt = n) : w = .ofInt n := by
  rw [← h, Int32.ofInt_toInt]

theorem unwrapConverted_i32TryFrom {n : Nat} :
    unwrapConverted (i32TryFrom n) =
      if n ≤ 2147483647 then .ok (.ofInt n) else .error .unwrapErr := by
  split
  · next hle => rw [i32TryFrom_eq_some.mpr (toInt_ofInt hle), unwrapConverted]
  · next hlt =>
    cases hfrom : i32TryFrom n with
    | none => rfl
    | some w =>
      have hw := w.toInt_lt
      rw [i32TryFrom_eq_some.mp hfrom] at hw
      omega

/-- Where the text fits, a computation does not panic. -/
theorem ends_computed_fits {α : Type} {x : Except Panic α} {Q : α → Client → Prop}
    (hQ : ∀ a, x = .ok a → Q a c)
    (hfits : ∀ text image, Fits env scale text image → ∃ a, x = .ok a) :
    Ends (computed x) c Q (Refuses env (Unfit env scale)) := by
  refine ends_computed hQ fun p hp _ text image h => ?_
  obtain ⟨a, ha⟩ := hfits text image h
  cases hp.symm.trans ha

/-- A size or a length that fits is handed on as it is. -/
theorem ends_computed_size {n : Nat} {Q : Int32 → Client → Prop}
    (hQ : n ≤ 2147483647 → Q (.ofInt n) c)
    (hfits : ∀ text image, Fits env scale text image → n ≤ 2147483647) :
    Ends (computed (unwrapConverted (i32TryFrom n))) c Q (Refuses env (Unfit env scale)) := by
  refine ends_computed_fits ?_ fun text image h =>
    ⟨_, unwrapConverted_i32TryFrom.trans (if_pos (hfits text image h))⟩
  intro w hw
  rw [unwrapConverted_i32TryFrom] at hw
  split at hw
  · next hle =>
    cases hw
    exact hQ hle
  · cases hw

theorem ends_computed_stride {n : Nat} {Q : Int32 → Client → Prop}
    (hQ : Q (.ofInt (n * 4)) c) (hle : n ≤ 2147483647)
    (hfits : ∀ text image, Fits env scale text image → n * 4 ≤ 2147483647) :
    Ends (computed (i32Op env.checked ((Int32.ofInt n).toInt * 4))) c Q
      (Refuses env (Unfit env scale)) := by
  have hcast : (Int32.ofInt n).toInt * 4 = ((n * 4 : Nat) : Int) := by
    rw [toInt_ofInt hle]
    rfl
  rw [hcast]
  refine ends_computed_fits ?_ fun text image h => ⟨.ofInt (n * 4 : Nat), ?_⟩
  · intro w hw
    have hwrapped : w = .ofInt (n * 4 : Nat) := by
      cases hchecked : env.checked with
      | true => exact eq_ofInt (i32Op_checked (hchecked ▸ hw))
      | false =>
        rw [hchecked] at hw
        cases hw
        rfl
    rw [hwrapped]
    exact hQ
  · have hop := i32Op_toInt env.checked (.ofInt (n * 4 : Nat))
    rwa [toInt_ofInt (hfits text image h)] at hop

theorem ends_newSharedMemory_presents {length : Int32} {Q : RawFd → Client → Prop}
    (hpos : 0 ≤ length.toInt)
    (hQ : ∀ fd, Q fd ((c.acting (.createdMemory fd)).acting (.setLength fd length.toInt))) :
    Ends (newSharedMemory env length) c Q (Refuses env (Unfit env scale)) := by
  unfold newSharedMemory
  refine ends_bind (ends_get ?_)
  cases hnew : env.newAnonymous c.log with
  | none =>
    refine ends_throw fun hobliges => ?_
    have hsome := hobliges.newAnonymous c.log
    rw [hnew] at hsome
    cases hsome
  | some fd =>
    refine ends_bind (ends_modify (ends_bind (ends_get ?_)))
    split
    · exact ends_bind (ends_modify (ends_pure (hQ fd)))
    · next hfails => exact ends_throw fun hobliges => absurd (hobliges.setsLength _ _ _ hpos) hfails

theorem ends_writeSharedMemory_presents {fd : RawFd}
    (hmaps : ∀ log fd (length : Int), env.maps log fd length = true → 0 < length)
    (hQ : 0 < bytes.length → Q () (c.acting (.written fd bytes)))
    (hfits : ∀ text image, Fits env scale text image → 0 < bytes.length) :
    Ends (writeSharedMemory env fd bytes) c Q (Refuses env (Unfit env scale)) := by
  unfold writeSharedMemory
  refine ends_bind (ends_get ?_)
  split
  · next hmapped => exact ends_modify (hQ (by exact_mod_cast hmaps _ _ _ hmapped))
  · next hfails =>
    refine ends_throw fun hobliges text image h => hfails (hobliges.maps _ _ _ ?_)
    exact_mod_cast hfits text image h

theorem ends_placeSurface_presents {layerSurface : ObjectId}
    (hQ : ∀ c', c'.log = c.log ++ placeActions env.target layerSurface textImage a →
      c'.nextObjectId = c.nextObjectId → Q () c') :
    Ends (LayerSurfaceHandler.placeSurface env layerSurface textImage a) c Q
      (Refuses env (Unfit env scale)) := by
  unfold LayerSurfaceHandler.placeSurface
  refine ends_bind (ends_request_words 0 (by decide) rfl (wellTyped_iff.mpr rfl) rfl (by simp) ?_)
  refine ends_bind (ends_request_words 1 (by decide) rfl (wellTyped_iff.mpr rfl) rfl (by simp) ?_)
  refine ends_request_words 3 (by decide) rfl (wellTyped_iff.mpr rfl) rfl (by simp) ?_
  refine hQ _ ?_ rfl
  simp [Client.acting, Client.logging, placeActions]

theorem ends_createBuffer_presents {shmOid : Option ObjectId} {shm : ObjectId} {n : Nat}
    {Q : RawFd × ObjectId → Client → Prop}
    (hmaps : ∀ log fd (length : Int), env.maps log fd length = true → 0 < length)
    (hdrawn : LayerSurfaceHandler.scaledText env scale = .ok (a, textImage, bytes))
    (hsome : shmOid = some shm) (hnext : c.nextObjectId = .ofNat n) (hpos : 0 < n)
    (hroom : n + 2 ≤ 4294967296)
    (hQ : ∀ shmPool buffer sharedMemory c', shmPool.val.toNat = n → buffer.val.toNat = n + 1 →
      0 < bytes.length → bytes.length ≤ 2147483647 →
      c'.log = c.log ++ bufferActions env.target shm shmPool buffer sharedMemory textImage bytes →
        Q (sharedMemory, buffer) c') :
    Ends (LayerSurfaceHandler.createBuffer env shmOid textImage bytes) c Q
      (Refuses env (Unfit env scale)) := by
  have hbounds := fun text image (h : Fits env scale text image) => h.bounds hdrawn
  unfold LayerSurfaceHandler.createBuffer
  refine ends_bind (ends_computed_size (fun hle => ?_) fun _ _ h => (hbounds _ _ h).2.1)
  refine ends_bind (ends_newSharedMemory_presents ?_ fun sharedMemory => ?_)
  · rw [toInt_ofInt hle]
    exact Int.natCast_nonneg _
  refine ends_bind (ends_unwrap hsome ?_)
  refine ends_bind (ends_getAndIncrementNextObjectId hnext hpos (by omega)
    fun shmPoolId hpool => ?_)
  refine ends_bind (ends_request_words 0 (by decide) rfl (wellTyped_iff.mpr rfl) rfl (by simp) ?_)
  refine ends_bind (ends_getAndIncrementNextObjectId rfl (Nat.succ_pos _) (by omega)
    fun bufferOid hbuffer => ?_)
  refine ends_bind (ends_modify ?_)
  refine ends_bind (ends_computed_size (fun hwidth => ?_) fun _ _ h => by
    have := (hbounds _ _ h).2.2.1
    omega)
  refine ends_bind (ends_computed_size (fun hheight => ?_) fun _ _ h => (hbounds _ _ h).2.2.2)
  refine ends_bind (ends_computed_stride ?_ hwidth fun _ _ h => (hbounds _ _ h).2.2.1)
  refine ends_bind (ends_request_words 0 (by decide) rfl (wellTyped_iff.mpr rfl) rfl (by simp) ?_)
  refine ends_bind (ends_writeSharedMemory_presents hmaps (fun hlength => ends_pure ?_)
    fun _ _ h => (hbounds _ _ h).1)
  refine hQ _ _ _ _ hpool hbuffer hlength hle ?_
  simp [Client.acting, Client.logging, Client.counting, Client.registering, bufferActions,
    toInt_ofInt hle]

theorem ends_showBuffer_presents {surfaceOid : Option ObjectId}
    {surface buffer emptyRegion : ObjectId} (hsome : surfaceOid = some surface)
    (hQ : ∀ c', c'.log = c.log ++ showActions env.target surface buffer emptyRegion scale →
      Q () c') :
    Ends (LayerSurfaceHandler.showBuffer env surfaceOid buffer emptyRegion scale) c Q
      (Refuses env (Unfit env scale)) := by
  unfold LayerSurfaceHandler.showBuffer
  refine ends_bind (ends_unwrap hsome ?_)
  refine ends_bind (ends_request_words 1 (by decide) rfl (wellTyped_iff.mpr rfl) rfl (by simp) ?_)
  refine ends_bind (ends_request_words 8 (by decide) rfl (wellTyped_iff.mpr rfl) rfl (by simp) ?_)
  refine ends_bind (ends_request_words 5 (by decide) rfl (wellTyped_iff.mpr rfl) rfl (by simp) ?_)
  refine ends_request_words 6 (by decide) rfl .nil rfl (by simp) ?_
  refine hQ _ ?_
  simp [Client.acting, Client.logging, showActions]

/-- The objects of a presentation: the latest layer surface, the surface that it
was made of, and new ids in turn. -/
structure Presentation.Names (v : Presentation) (s : WlSession) : Prop where
  layerSurface : s.Has v.layerSurface zwlrLayerSurface.name
  latest : ∀ o, s.Has o zwlrLayerSurface.name → o.val.toNat ≤ v.layerSurface.val.toNat
  compositor : s.Has v.compositor wlCompositor.name
  shm : s.Has v.shm wlShm.name
  surface : s.Has v.surface wlSurface.name
  promoted : (v.layerSurface, v.surface) ∈ s.layerSurfaces
  emptyRegion : v.emptyRegion.val.toNat = s.nextId
  shmPool : v.shmPool.val.toNat = s.nextId + 1
  buffer : v.buffer.val.toNat = s.nextId + 2

/-- The numbers in the requests are the exact ones: the size of the surface
times `a` is that of the buffer, and the pool and the memory are as long as its
rows together. -/
structure SizesAgree (textImage : Image) (a : UInt32) : Prop where
  width : (textImage.width / a).toNat * a.toNat = textImage.width.toNat
  height : (textImage.height / a).toNat * a.toNat = textImage.height.toNat
  stride : (Int32.ofInt (textImage.width.toNat * 4)).toInt = textImage.width.toNat * 4
  rows : (Int32.ofInt textImage.height.toNat).toInt = textImage.height.toNat
  length : (Int32.ofInt textImage.argbBytes.length).toInt =
    textImage.height.toNat * (textImage.width.toNat * 4)

theorem Fits.sizesAgree {text : Text} {image : Image} (h : Fits env scale text image)
    (ha : a.toNat = scale.toInt.natAbs) : SizesAgree (paddedImage scale image) a := by
  obtain ⟨hwidth, hheight⟩ := h.sizes
  obtain ⟨_, _, hdrawn⟩ := h.scaledText
  obtain ⟨_, hlength, hstride, hrows⟩ := h.bounds hdrawn
  have hdvd : ∀ {v : UInt32} {n : Nat}, v.toNat = roundUp scale.toInt.natAbs n →
      (v / a).toNat * a.toNat = v.toNat := fun {v n} hv => by
    rw [UInt32.toNat_div, ha, hv]
    exact Nat.div_mul_cancel (dvd_roundUp _ _)
  refine ⟨hdvd hwidth, hdvd hheight, ?_, toInt_ofInt hrows, ?_⟩
  · exact_mod_cast toInt_ofInt hstride
  · rw [toInt_ofInt hlength, Image.length_argbBytes]
    push_cast
    rfl

/-- The handler of `configure` has done all its steps, with the absolute value
of the preferred scale. -/
def Presents (env : Environment) (s : WlSession) (serial : UInt32) (c c' : Client) : Prop :=
  ∃ (text : Text) (image : Image) (v : Presentation) (a : UInt32),
    Fits env c.displayState.preferredScale text image ∧ v.Names s ∧
      a.toNat = c.displayState.preferredScale.toInt.natAbs ∧
      SizesAgree (paddedImage c.displayState.preferredScale image) a ∧
      c'.log = c.log ++ v.actions env.target serial a c.displayState.preferredScale
        (paddedImage c.displayState.preferredScale image)

theorem ends_handleConfigure_presents {s : WlSession} {serial width height : UInt32}
    (hmaps : ∀ log fd (length : Int), env.maps log fd length = true → 0 < length)
    (h : c.Agrees env.target s) (hroom : s.nextId + 3 ≤ 4294967296)
    (hlayerSurface : ∃ o, s.Has o zwlrLayerSurface.name) :
    Ends (LayerSurfaceHandler.handleConfigure env serial width height) c
      (fun _ => Presents env s serial c)
      (Refuses env (Unfit env c.displayState.preferredScale)) := by
  obtain ⟨compositor, shm, surface, layerSurface, hcompositor, hshm, hsurface, hlayerSurface⟩ :=
    h.displayState.exists_oids hlayerSurface
  unfold LayerSurfaceHandler.handleConfigure
  refine ends_bind (ends_modify (ends_bind (ends_get ?_)))
  dsimp only
  refine ends_bind (ends_unwrap hlayerSurface ?_)
  refine ends_bind (ends_request_words 6 (by decide) rfl (wellTyped_iff.mpr rfl) rfl (by simp) ?_)
  refine ends_bind (ends_computed_fits ?_ fun text image hfits => ?_)
  rotate_left
  · obtain ⟨a, _, hdrawn⟩ := hfits.scaledText
    exact ⟨_, hdrawn⟩
  rintro ⟨a, textImage, bytes⟩ hdrawn
  dsimp only
  refine ends_bind (ends_placeSurface_presents fun c₁ hlog₁ hnext₁ => ?_)
  refine ends_bind (ends_unwrap hcompositor ?_)
  refine ends_bind (ends_getAndIncrementNextObjectId (hnext₁.trans h.nextObjectId) (nextId_pos s)
    (by omega) fun emptyRegion hregion => ?_)
  refine ends_bind (ends_request_words 1 (by decide) rfl (wellTyped_iff.mpr rfl) rfl (by simp) ?_)
  refine ends_bind (ends_createBuffer_presents hmaps hdrawn hshm rfl (Nat.succ_pos _) (by omega)
    fun shmPool buffer sharedMemory c₂ hpool hbuffer hpos hle hlog₂ => ?_)
  dsimp only
  refine ends_bind (ends_showBuffer_presents hsurface fun c₃ hlog₃ => ?_)
  obtain ⟨text, image, hfits, rfl⟩ := fits_of_scaledText hdrawn hpos hle
  obtain ⟨a', ha, hscaled⟩ := hfits.scaledText
  cases hscaled.symm.trans hdrawn
  refine ends_modify ⟨text, image, ⟨layerSurface, compositor, shm, surface, emptyRegion, shmPool,
    buffer, sharedMemory⟩, a, hfits, ?_, ha, hfits.sizesAgree ha, ?_⟩
  · exact
      { layerSurface := h.displayState.layerSurface _ hlayerSurface
        latest := fun o ho => h.displayState.latest _ o hlayerSurface ho
        compositor := h.displayState.compositor _ hcompositor
        shm := h.displayState.shm _ hshm
        surface := h.displayState.surface _ hsurface
        promoted := h.displayState.promoted _ _ hlayerSurface hsurface
        emptyRegion := hregion
        shmPool := hpool
        buffer := hbuffer }
  · simp only [Client.acting, Client.logging, Client.counting, hlog₁, hlog₂, hlog₃,
      Presentation.actions, List.append_assoc, List.cons_append, List.nil_append]
    rfl

end Steps

/-! ## A `configure` event in a run -/

section Runs

/-- The packet is a `configure` event with these arguments. -/
structure IsConfigure (t : Target) (packet : Packet) (serial width height : UInt32) : Prop where
  opcode : packet.opcode = 0
  args : decodeArgs t [⟨"serial", .uint, none⟩, ⟨"width", .uint, none⟩, ⟨"height", .uint, none⟩]
    packet = .ok [.uint serial, .uint width, .uint height]

variable {env : Environment} {c : Client} {s : WlSession} {packet : Packet}
  {serial width height : UInt32}

/-- A `configure` event gets to its handler. -/
theorem ends_receive_configure {Q : Unit → Client → Prop} {E : Stop → Client → Prop}
    (hconfigure : IsConfigure env.target packet serial width height)
    (hhandler : c.registry packet.objectId = some .layerSurfaceHandler)
    (h : Ends (LayerSurfaceHandler.handleConfigure env serial width height)
      (c.acting (.received packet)).draining Q E) :
    Ends (receive env packet) c Q E := by
  have hevent : Handler.layerSurfaceHandler.interface.events[packet.opcode.toNat]? =
      some ⟨"configure", [⟨"serial", .uint, none⟩, ⟨"width", .uint, none⟩,
        ⟨"height", .uint, none⟩]⟩ := by
    rw [hconfigure.opcode]
    rfl
  exact ends_receive_of_handler hhandler (ends_handleEvent_of_ok hevent hconfigure.args h)

theorem Presentation.Names.of_event {t : Target} {v : Presentation}
    (h : v.Names (s.event t packet)) : v.Names s where
  layerSurface := WlSession.has_event.mp h.layerSurface
  latest o ho := h.latest o (WlSession.has_event.mpr ho)
  compositor := WlSession.has_event.mp h.compositor
  shm := WlSession.has_event.mp h.shm
  surface := WlSession.has_event.mp h.surface
  promoted := WlSession.layerSurfaces_event t s packet ▸ h.promoted
  emptyRegion := h.emptyRegion.trans nextId_event
  shmPool := h.shmPool.trans (congrArg (· + 1) nextId_event)
  buffer := h.buffer.trans (congrArg (· + 2) nextId_event)

/-- The next packet of a run is a `configure` event. -/
theorem ends_receive_presents {packets : List Packet}
    (hroom : 3 * (packets.length + 1) + 3 ≤ 4294967296)
    (hmaps : ∀ log fd (length : Int), env.maps log fd length = true → 0 < length)
    (hrun : (run env packets).run {} = .ok () c)
    (hhandler : c.registry packet.objectId = some .layerSurfaceHandler)
    (hconfigure : IsConfigure env.target packet serial width height) :
    ∃ s, c.Converses env.target s ∧ Ends (receive env packet) c
      (fun _ => Presents env s serial (c.acting (.received packet)))
      (Refuses env (Unfit env c.displayState.preferredScale)) := by
  obtain ⟨s, hs, hle⟩ := (ends_run_room (k := 1) hroom).ok hrun
  have hobject := (hs.handlers _ _).mp hhandler
  refine ⟨s, hs.converses, ends_receive_configure hconfigure hhandler ?_⟩
  refine (ends_handleConfigure_presents hmaps (hs.received packet).draining ?_
    ⟨_, WlSession.has_event.mpr hobject⟩).mono ?_ fun _ _ hrefuses => hrefuses
  · rw [nextId_event]
    omega
  · rintro _ c' ⟨text, image, v, a, hfits, hnames, hpresented⟩
    exact ⟨text, image, v, a, hfits, hnames.of_event, hpresented⟩

theorem obliges_obliging (text : Int32 → Except String Text) :
    (Environment.obliging text).Obliges :=
  ⟨fun _ _ => rfl, fun _ => rfl, fun _ _ _ _ => rfl, fun _ _ _ => decide_eq_true⟩

theorem maps_obliging {text : Int32 → Except String Text} (log : List Action) (fd : RawFd)
    (length : Int) (h : (Environment.obliging text).maps log fd length = true) : 0 < length :=
  of_decide_eq_true h

/-- The globals that the client needs are announced. -/
def announcements : List Packet :=
  [requestPacket ⟨.little, .w64⟩ (.ofNat 2) 0 [.uint 1, .string "wl_compositor", .uint 6],
    requestPacket ⟨.little, .w64⟩ (.ofNat 2) 0 [.uint 2, .string "wl_shm", .uint 2],
    requestPacket ⟨.little, .w64⟩ (.ofNat 2) 0 [.uint 3, .string "zwlr_layer_shell_v1", .uint 4]]

/-- Two glyphs are all that there is to draw. -/
def overlapping : Environment := .obliging fun _ => .ok overlap

/-- The layer surface has the object id 7. -/
def configureEvent : Packet :=
  requestPacket ⟨.little, .w64⟩ (.ofNat 7) 0 [.uint 1, .uint 0, .uint 0]

def readyClient : Client := final (run overlapping announcements) {}

/-- In any run, whatever may fail, a handler of `configure` that returns has
presented the text, on the latest layer surface. -/
theorem configure_presents (env : Environment) (packets : List Packet) (packet : Packet)
    (c c' : Client) (serial width height : UInt32)
    (hmaps : ∀ log fd (length : Int), env.maps log fd length = true → 0 < length)
    (hroom : 3 * (packets.length + 1) + 3 ≤ 4294967296)
    (hrun : (run env packets).run {} = .ok () c)
    (hhandler : c.registry packet.objectId = some .layerSurfaceHandler)
    (hconfigure : IsConfigure env.target packet serial width height)
    (hreceive : (receive env packet).run c = .ok () c') :
    ∃ s, c.Converses env.target s ∧ Presents env s serial (c.acting (.received packet)) c' := by
  obtain ⟨s, hs, hends⟩ := ends_receive_presents hroom hmaps hrun hhandler hconfigure
  exact ⟨s, hs, hends.ok hreceive⟩

theorem configure_presents_overlapping :
    ∃ s, readyClient.Converses ⟨.little, .w64⟩ s ∧
      Presents overlapping s 1 (readyClient.acting (.received configureEvent))
        (final (receive overlapping configureEvent) readyClient) :=
  configure_presents overlapping announcements configureEvent readyClient _ 1 0 0
    maps_obliging (by decide) (run_of_returns (by decide +kernel)) (by decide +kernel)
    ⟨rfl, by decide +kernel⟩ (run_of_returns (by decide +kernel))

end Runs

/-! ## What is in the buffer -/

section Buffer

/-- Nothing is covered below this row. -/
def Text.LastRow (text : Text) (y : UInt32) : Prop :=
  ∀ k, 0 < text.coverage k → k.2.toNat ≤ y.toNat

theorem Text.Shows.lastRow_iff {text : Text} {image : Image} (h : text.Shows image) {k : Place}
    (hk : 0 < text.coverage k) : text.LastRow k.2 ↔ k.2 = image.height := by
  constructor
  · intro hlast
    obtain ⟨last, hcovered, hrow⟩ := h.last ⟨k, hk⟩
    have hge := hlast last hcovered
    rw [hrow] at hge
    exact UInt32.toNat_inj.mp (Nat.le_antisymm (h.le_height k hk) hge)
  · rintro hrow k' hk'
    rw [hrow]
    exact h.le_height k' hk'

/-- Where nothing overflows in drawing, the bytes of the buffer show what covers
each pixel. The last row with something is lost if the scale divides its number,
and no other row. -/
theorem shown_iff (env : Environment) (scale : Int32) (text : Text) (image : Image)
    (hfits : Fits env scale text image) (hdrawn : drawText true text = .ok image) :
    (∀ x y j, x < (paddedImage scale image).width.toNat →
      y < (paddedImage scale image).height.toNat → j < 4 →
        (paddedImage scale image).argbBytes[
          y * ((paddedImage scale image).width.toNat * 4) + (x * 4 + j)]? =
          some (.ofNat (min 255 (text.coverage (.ofNat x, .ofNat y))))) ∧
      ∀ k, 0 < text.coverage k →
        (k.2.toNat < (paddedImage scale image).height.toNat ↔
          ¬ text.LastRow k.2 ∨ ¬ scale.toInt.natAbs ∣ k.2.toNat) := by
  obtain ⟨_, hheight⟩ := hfits.sizes
  have hshows := drawText_shows hdrawn
  have hscale : 0 < scale.toInt.natAbs := Int.natAbs_pos.mpr hfits.scale_ne_zero
  constructor
  · intro x y j hx hy hj
    have hlevel : ((paddedImage scale image).pixels.alpha (.ofNat x, .ofNat y)).toNat =
        min 255 (text.coverage (.ofNat x, .ofNat y)) := hshows.level _
    rw [Image.getElem?_argbBytes _ hx hy hj, ← hlevel, UInt8.ofNat_toNat]
  · intro k hk
    have hle := hshows.le_height k hk
    have hup := le_roundUp (n := image.height.toNat) hscale
    rw [hheight, hshows.lastRow_iff hk]
    rcases Nat.lt_or_eq_of_le hle with hlt | heq
    · refine iff_of_true (by omega) (.inl fun hrow => ?_)
      rw [hrow] at hlt
      exact absurd hlt (Nat.lt_irrefl _)
    · have hrow : k.2 = image.height := UInt32.toNat_inj.mp heq
      rw [hrow]
      by_cases hdvd : scale.toInt.natAbs ∣ image.height.toNat
      · rw [roundUp_of_dvd hscale hdvd]
        exact iff_of_false (Nat.lt_irrefl _) (by simp [hdvd])
      · have hover := not_lt_roundUp hscale hdvd (Nat.le_refl _)
        exact iff_of_true (by omega) (.inr hdvd)

/-- With the scale 1, the second of the two rows is lost. -/
theorem shown_iff_overlap : ∃ image, drawText true overlap = .ok image ∧
    (∀ x y j, x < (paddedImage 1 image).width.toNat →
      y < (paddedImage 1 image).height.toNat → j < 4 →
        (paddedImage 1 image).argbBytes[
          y * ((paddedImage 1 image).width.toNat * 4) + (x * 4 + j)]? =
          some (.ofNat (min 255 (overlap.coverage (.ofNat x, .ofNat y))))) ∧
      ∀ k, 0 < overlap.coverage k →
        (k.2.toNat < (paddedImage 1 image).height.toNat ↔
          ¬ overlap.LastRow k.2 ∨ ¬ (1 : Int32).toInt.natAbs ∣ k.2.toNat) :=
  ⟨_, rfl, shown_iff overlapping 1 overlap _
    ⟨rfl, rfl, by decide, by decide, by decide +kernel, by decide +kernel⟩ rfl⟩

end Buffer

end WhaleLand.ActivateLinux
