import WhaleLand.Basic
import WhaleLand.Lib.MachineInt

/-!
# Fixed-point numbers and integers

`From` and `TryFrom` between `Fixed` and the integer types. The way from a wide
integer checks the amount of its left shift and the range of what is left of
the number, but not the bits that the shift drops. So it is exact or refused
for the numbers of 24 bits, and where the kept bits alone are out of range
(`exactOrRejected_iff`). The other way gives numbers of 24 bits only, so that
from there and back nothing is lost (`tryIntoInt_toFixed`).
-/

namespace WhaleLand

open MachineInt Format

/-! ## The conversions -/

inductive IntType
  | u8
  | i8
  | u16
  | i16
  | u32
  | i32
  | u64
  | i64
  | u128
  | i128
deriving DecidableEq, Repr

namespace IntType

def format : IntType → Format
  | .u8 => { signed := false, bits := 8 }
  | .i8 => { signed := true, bits := 8 }
  | .u16 => { signed := false, bits := 16 }
  | .i16 => { signed := true, bits := 16 }
  | .u32 => { signed := false, bits := 32 }
  | .i32 => { signed := true, bits := 32 }
  | .u64 => { signed := false, bits := 64 }
  | .i64 => { signed := true, bits := 64 }
  | .u128 => { signed := false, bits := 128 }
  | .i128 => { signed := true, bits := 128 }

/-- A value of the type. -/
abbrev Val (T : IntType) := T.format.Val

/-- The types of `impl_from_int!`. -/
def fromTypes : List IntType := [.u8, .i8, .u16, .i16]

/-- The types of `impl_try_from_int!`. -/
def tryFromTypes : List IntType := [.u32, .i32, .u64, .i64, .u128, .i128]

end IntType

namespace Fixed

variable {T : IntType}

/-- `value as i32`. -/
def asI32 (value : T.Val) : IntType.i32.Val := .ofInt _ (Format.value value)

/-- `Fixed::from`. -/
def fromInt (value : T.Val) : Fixed :=
  ⟨.ofBitVec (asI32 value <<< 8)⟩

/-- `Fixed::try_from`; its error carries nothing. -/
def tryFromInt (value : T.Val) : Option Fixed := do
  let shifted ← checkedShl value 8
  let converted ← IntType.i32.format.tryFrom (Format.value shifted)
  return ⟨.ofBitVec converted⟩

/-- `FRAC_BIT_MASK`. -/
def fracBitMask : Int32 := ((1 : Int32) <<< 8) - 1

variable (T) in
/-- `T::try_from`. The shift to the right keeps the sign. -/
def tryIntoInt (value : Fixed) : Option T.Val :=
  if value.innerValue &&& fracBitMask = 0 then
    let intValue := value.innerValue >>> 8
    T.format.tryFrom intValue.toInt
  else
    none

/-- An integer of any of the types as a `Fixed`, by `From` where there is one. -/
def toFixed (value : T.Val) : Option Fixed :=
  if T ∈ IntType.fromTypes then some (fromInt value) else tryFromInt value

/-- What the two conversions promise together: a number that fits with its
eight fractional bits is converted exactly, and back again; any other is
refused. -/
def ExactOrRejected (v : T.Val) : Prop :=
  if IntType.i32.format.InRange (256 * value v) then
    ∃ f, tryFromInt v = some f ∧ f.innerValue.toInt = 256 * value v ∧ f.tryIntoInt T = some v
  else
    tryFromInt v = none

/-- The integers of 24 bits, which fit. -/
def Holds (n : Int) : Prop := -2 ^ 23 ≤ n ∧ n < 2 ^ 23

instance (n : Int) : Decidable (Holds n) := inferInstanceAs (Decidable (_ ∧ _))

/-! ## What the conversions compute -/

theorem inRange_i32_iff {n : Int} : IntType.i32.format.InRange (256 * n) ↔ Holds n := by
  unfold Holds
  show (-(2 ^ 32 : Nat) ≤ 2 * (256 * n) ∧ 2 * (256 * n) < (2 ^ 32 : Nat)) ↔ _
  omega

theorem value_i32 (v : Int32) : value (T := IntType.i32.format) v.toBitVec = v.toInt := rfl

/-- The bits of the number that are left after the shift, as a number. -/
def kept (T : IntType) (n : Int) : Int := T.format.residue (2 ^ (T.format.bits - 8)) n

theorem bits_of_mem (hT : T ∈ IntType.tryFromTypes) : 32 ≤ T.format.bits := by
  have hall : ∀ T ∈ IntType.tryFromTypes, 32 ≤ T.format.bits := by decide
  exact hall T hT

theorem tryFromInt_eq_some (hT : T ∈ IntType.tryFromTypes) {v : T.Val} {f : Fixed} :
    tryFromInt v = some f ↔ f.innerValue.toInt = 256 * kept T (value v) := by
  have hbits := bits_of_mem hT
  have hshifted : value (v <<< 8) = 256 * kept T (value v) := by
    have hpow : 2 ^ T.format.bits = 2 ^ 8 * 2 ^ (T.format.bits - 8) := by
      rw [← Nat.pow_add, Nat.add_sub_cancel' (by omega)]
    rw [value_shiftLeft, hpow]
    exact residue_mul (by decide) (Nat.two_pow_pos _) (value v)
  unfold tryFromInt checkedShl
  rw [if_pos (by omega), Option.bind_eq_bind, Option.bind_some, hshifted]
  constructor
  · intro h
    obtain ⟨converted, hconverted, hf⟩ := Option.bind_eq_some_iff.mp h
    cases hf
    exact tryFrom_eq_some.mp hconverted
  · intro h
    rw [← value_i32] at h
    rw [tryFrom_eq_some.mpr h]
    rfl

theorem tryFromInt_eq_none (hT : T ∈ IntType.tryFromTypes) {v : T.Val} :
    tryFromInt v = none ↔ ¬ Holds (kept T (value v)) := by
  rw [← inRange_i32_iff, ← not_iff_not, not_not, ← ne_eq, Option.ne_none_iff_exists']
  constructor
  · rintro ⟨f, hf⟩
    rw [tryFromInt_eq_some hT, ← value_i32] at hf
    exact hf ▸ inRange_value _
  · intro h
    refine ⟨⟨.ofBitVec (.ofInt 32 (256 * kept T (value v)))⟩, (tryFromInt_eq_some hT).mpr ?_⟩
    rw [← value_i32]
    exact (value_ofInt _).trans (residue_of_reduced h)

/-- The mask cuts out the fraction. -/
theorem and_fracBitMask_eq_zero {x : Int32} : x &&& fracBitMask = 0 ↔ x.toInt % 256 = 0 := by
  have hnat : (x &&& fracBitMask).toBitVec.toNat = x.toBitVec.toNat % 256 := by
    rw [Int32.toBitVec_and, BitVec.toNat_and]
    exact Nat.and_two_pow_sub_one_eq_mod x.toBitVec.toNat 8
  have hint : x.toInt % 256 = (x.toBitVec.toNat % 256 : Nat) := by
    have hx := BitVec.toInt_eq_toNat_cond x.toBitVec
    rw [Int32.toInt]
    split at hx <;> omega
  rw [hint, ← hnat, ← Int32.toBitVec_inj, ← BitVec.toNat_inj]
  exact Int.natCast_eq_zero.symm

theorem toInt_shiftRight (x : Int32) : (x >>> 8).toInt = x.toInt / 256 := by
  show (x.toBitVec.sshiftRight _).toInt = _
  rw [BitVec.toInt_sshiftRight]
  exact Int.shiftRight_eq_div_pow x.toInt 8

/-- The way back gives the integer of an integral number. -/
theorem tryIntoInt_eq_some {f : Fixed} {v : T.Val} :
    f.tryIntoInt T = some v ↔ f.innerValue.toInt = 256 * value v := by
  unfold tryIntoInt
  constructor
  · intro h
    split at h
    · next hmask =>
      have hfrac := and_fracBitMask_eq_zero.mp hmask
      have hv := tryFrom_eq_some.mp h
      rw [toInt_shiftRight] at hv
      omega
    · cases h
  · intro h
    rw [if_pos (and_fracBitMask_eq_zero.mpr (by omega))]
    refine tryFrom_eq_some.mpr ?_
    rw [toInt_shiftRight]
    omega

/-! ## When they are exact -/

/-- A number of 24 bits is kept as it is. -/
theorem kept_of_holds (hT : T ∈ IntType.tryFromTypes) {v : T.Val} (h : Holds (value v)) :
    kept T (value v) = value v := by
  refine residue_of_reduced ?_
  have hpow : 2 ^ 24 ≤ 2 ^ (T.format.bits - 8) :=
    Nat.pow_le_pow_right (by decide) (by have := bits_of_mem hT; omega)
  have hrange := inRange_value v
  unfold Holds at h
  unfold InRange at hrange
  unfold Reduced at hrange ⊢
  split
  · omega
  · next hs =>
    rw [if_neg hs] at hrange
    omega

/-- The conversion is exact or refuses, except for the numbers that do not fit
and whose kept bits do. -/
theorem exactOrRejected_iff (hT : T ∈ IntType.tryFromTypes) (v : T.Val) :
    ExactOrRejected v ↔ Holds (value v) ∨ ¬ Holds (kept T (value v)) := by
  unfold ExactOrRejected
  by_cases h : Holds (value v)
  · have hkept := kept_of_holds hT h
    rw [if_pos (inRange_i32_iff.mpr h)]
    refine ⟨fun _ => .inl h, fun _ => ?_⟩
    obtain ⟨f, hf⟩ : ∃ f, tryFromInt v = some f := by
      rw [← Option.ne_none_iff_exists', ne_eq, tryFromInt_eq_none hT, hkept, not_not]
      exact h
    have hinner := (tryFromInt_eq_some hT).mp hf
    rw [hkept] at hinner
    exact ⟨f, hf, hinner, tryIntoInt_eq_some.mpr hinner⟩
  · rw [if_neg (mt inRange_i32_iff.mp h), tryFromInt_eq_none hT, or_iff_right h]

/-- The number 1 is converted exactly. -/
theorem exactOrRejected_iff_one : ExactOrRejected (T := .u32) 1 :=
  (exactOrRejected_iff (by decide) _).mpr (.inl (by decide))

/-- The only bit of 2²⁴ is dropped by the shift, so it is converted to 0. -/
theorem dropped_bit_accepted :
    ¬ ∀ (T : IntType) (v : T.Val), T ∈ IntType.tryFromTypes → ExactOrRejected v := by
  intro h
  have hzero : tryFromInt (T := .u32) 0x01000000 = some ⟨0⟩ := by decide
  have hexact := h .u32 0x01000000 (by decide)
  unfold ExactOrRejected at hexact
  rw [if_neg (by decide), hzero] at hexact
  cases hexact

/-! ## There and back -/

theorem holds_of_innerValue {f : Fixed} {n : Int} (h : f.innerValue.toInt = 256 * n) :
    Holds n := by
  rw [← inRange_i32_iff, ← h, ← value_i32]
  exact inRange_value _

theorem fromInt_of_innerValue {f : Fixed} {v : T.Val} (h : f.innerValue.toInt = 256 * value v) :
    fromInt v = f := by
  have hn : Holds (value v) := holds_of_innerValue h
  have hfits : IntType.i32.format.InRange (value v) := by
    unfold Holds at hn
    show -(2 ^ 32 : Nat) ≤ 2 * value v ∧ 2 * value v < (2 ^ 32 : Nat)
    omega
  have hbits : asI32 v <<< 8 = f.innerValue.toBitVec := by
    apply value_injective
    rw [value_shiftLeft, asI32, value_ofInt_of_inRange hfits, value_i32, h]
    exact residue_of_reduced (inRange_i32_iff.mpr hn)
  unfold fromInt
  rw [hbits]
  rfl

theorem tryFromInt_of_innerValue (hT : T ∈ IntType.tryFromTypes) {f : Fixed} {v : T.Val}
    (h : f.innerValue.toInt = 256 * value v) : tryFromInt v = some f := by
  rw [tryFromInt_eq_some hT, kept_of_holds hT (holds_of_innerValue h)]
  exact h

/-- The other way from an integer exists for the types that have none of these. -/
theorem mem_tryFromTypes (hT : T ∉ IntType.fromTypes) : T ∈ IntType.tryFromTypes := by
  cases T with
  | u8 | i8 | u16 | i16 => exact absurd (by decide) hT
  | u32 | i32 | u64 | i64 | u128 | i128 => decide

theorem toFixed_of_innerValue {f : Fixed} {v : T.Val} (h : f.innerValue.toInt = 256 * value v) :
    toFixed v = some f := by
  unfold toFixed
  split
  · rw [fromInt_of_innerValue h]
  · next hT => exact tryFromInt_of_innerValue (mem_tryFromTypes hT) h

/-- The integer that a `Fixed` is converted to is its number, for all integral
numbers in range, and is converted back to it. -/
theorem tryIntoInt_toFixed (T : IntType) (f : Fixed) :
    (∀ n : Int, (∃ v, f.tryIntoInt T = some v ∧ value v = n) ↔
      T.format.InRange n ∧ f.innerValue.toInt = 256 * n) ∧
    ∀ v, f.tryIntoInt T = some v → toFixed v = some f := by
  constructor
  · intro n
    constructor
    · rintro ⟨v, hv, rfl⟩
      exact ⟨inRange_value v, tryIntoInt_eq_some.mp hv⟩
    · rintro ⟨hn, hf⟩
      have hvalue := value_ofInt_of_inRange hn
      exact ⟨.ofInt _ n, tryIntoInt_eq_some.mpr (by rw [hvalue, hf]), hvalue⟩
  · intro v hv
    exact toFixed_of_innerValue (tryIntoInt_eq_some.mp hv)

/-- A negative number, there and back. -/
theorem tryIntoInt_toFixed_neg_one : toFixed (T := .i8) (-1) = some ⟨-256⟩ :=
  (tryIntoInt_toFixed .i8 ⟨-256⟩).2 (-1) (by decide)

end Fixed

end WhaleLand
