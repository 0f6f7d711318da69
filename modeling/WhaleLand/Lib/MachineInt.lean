import Mathlib.Data.Int.ModEq
import Mathlib.Tactic.Linarith

/-!
# Integer types of a fixed width

A `Format` is a sign and a width; its values are bit vectors, read as numbers
by `value`. A number that does not fit is brought into the type's range by
`residue`, which keeps it modulo `2 ^ bits`: so do shifts (`value_shiftLeft`)
and every operation that drops high bits. The checked conversion `tryFrom`
accepts exactly the numbers that are in range (`tryFrom_eq_some`). An operation
whose result does not fit stops where overflow is checked, and wraps elsewhere
(`arith`).
-/

namespace MachineInt

/-- An integer type. -/
structure Format where
  signed : Bool
  bits : Nat
  bits_pos : 0 < bits := by decide
deriving DecidableEq, Repr

namespace Format

variable (T : Format)

/-- The numbers that stand for the residues modulo `m`: around 0 for a signed
type, from 0 on for an unsigned one. -/
def Reduced (m : Nat) (n : Int) : Prop :=
  if T.signed then -m ≤ 2 * n ∧ 2 * n < m else 0 ≤ n ∧ n < m

instance (m : Nat) (n : Int) : Decidable (T.Reduced m n) := by
  unfold Reduced
  infer_instance

/-- The number that stands for `n` modulo `m`. -/
def residue (m : Nat) (n : Int) : Int := if T.signed then n.bmod m else n % m

/-- The numbers of the type. -/
def InRange (n : Int) : Prop := T.Reduced (2 ^ T.bits) n

instance (n : Int) : Decidable (T.InRange n) := inferInstanceAs (Decidable (T.Reduced _ n))

/-- A value of the type: its bits. -/
abbrev Val := BitVec T.bits

variable {T}

/-- The number that a value stands for. -/
def value (v : T.Val) : Int := if T.signed then v.toInt else v.toNat

variable (T) in
/-- Checked conversion of a number. -/
def tryFrom (n : Int) : Option T.Val := if T.InRange n then some (.ofInt _ n) else none

/-- Checked left shift: only the shift amount is checked. -/
def checkedShl (v : T.Val) (amount : Nat) : Option T.Val :=
  if amount < T.bits then some (v <<< amount) else none

variable (T) in
/-- The outcome of an operation with the exact result `n`: where overflow is
`checked` it must fit, elsewhere the high bits are dropped. -/
def arith (checked : Bool) (n : Int) : Option T.Val :=
  if checked then T.tryFrom n else some (.ofInt _ n)

/-! ## Residues -/

section Residues

variable {m : Nat} {n n' r : Int}

theorem reduced_residue (hm : 0 < m) (n : Int) : T.Reduced m (T.residue m n) := by
  unfold Reduced residue
  split
  · have hle : n.bmod m ≤ (m - 1) / 2 := Int.bmod_le hm
    have hge : -(m / 2 : Int) ≤ n.bmod m := Int.le_bmod hm
    omega
  · have hpos : (0 : Int) < m := by exact_mod_cast hm
    exact ⟨Int.emod_nonneg n hpos.ne', Int.emod_lt_of_pos n hpos⟩

theorem residue_of_reduced (h : T.Reduced m n) : T.residue m n = n := by
  unfold Reduced at h
  unfold residue
  split at h
  · next hs =>
    rw [if_pos hs]
    exact Int.bmod_eq_of_le_mul_two (by linarith) (by linarith)
  · next hs =>
    rw [if_neg hs]
    exact Int.emod_eq_of_lt h.1 h.2

/-- A residue is congruent to its number. -/
theorem residue_modEq (n : Int) : T.residue m n ≡ n [ZMOD m] := by
  unfold residue
  split
  · exact Int.bmod_emod
  · exact Int.mod_modEq n m

theorem residue_congr (h : n ≡ n' [ZMOD m]) : T.residue m n = T.residue m n' := by
  unfold residue
  split
  · rw [← Int.emod_bmod n, ← Int.emod_bmod n', h]
  · exact h

/-- It is the only reduced number that is. -/
theorem residue_eq_of_modEq (hr : T.Reduced m r) (h : r ≡ n [ZMOD m]) : T.residue m n = r := by
  rw [← residue_congr h, residue_of_reduced hr]

theorem reduced_mul {k : Nat} (hk : 0 < k) : T.Reduced (k * m) (k * n) ↔ T.Reduced m n := by
  have hpos : (0 : Int) < k := by exact_mod_cast hk
  unfold Reduced
  push_cast
  split
  · have hge : -(k * m : Int) ≤ 2 * (k * n) ↔ -(m : Int) ≤ 2 * n := by
      constructor <;> intro h <;> nlinarith
    have hlt : 2 * (k * n : Int) < k * m ↔ 2 * n < m := by
      constructor <;> intro h <;> nlinarith
    rw [hge, hlt]
  · rw [mul_nonneg_iff_of_pos_left hpos, mul_lt_mul_iff_right₀ hpos]

/-- A common factor can be taken out. -/
theorem residue_mul {k : Nat} (hk : 0 < k) (hm : 0 < m) (n : Int) :
    T.residue (k * m) (k * n) = k * T.residue m n := by
  refine residue_eq_of_modEq ((reduced_mul hk).mpr (reduced_residue hm n)) ?_
  push_cast
  exact (residue_modEq n).mul_left'

end Residues

/-! ## Values -/

section Values

variable {n : Int} {v w : T.Val}

theorem two_pow_bits_pos (T : Format) : 0 < 2 ^ T.bits := Nat.two_pow_pos T.bits

theorem value_ofInt (n : Int) : value (T := T) (.ofInt _ n) = T.residue (2 ^ T.bits) n := by
  unfold value residue
  split
  · exact BitVec.toInt_ofInt n
  · rw [BitVec.toNat_ofInt]
    exact Int.toNat_of_nonneg (Int.emod_nonneg n (by exact_mod_cast T.two_pow_bits_pos.ne'))

theorem ofInt_value (v : T.Val) : .ofInt _ (value v) = v := by
  unfold value
  split
  · exact BitVec.ofInt_toInt
  · rw [BitVec.ofInt_natCast, BitVec.ofNat_toNat, BitVec.setWidth_eq]

theorem value_injective : Function.Injective (value (T := T)) := by
  intro v w h
  rw [← ofInt_value v, h, ofInt_value]

theorem inRange_value (v : T.Val) : T.InRange (value v) := by
  rw [← ofInt_value v, value_ofInt]
  exact reduced_residue T.two_pow_bits_pos _

/-- The conversion gives the value of a number in range, and nothing else. -/
theorem tryFrom_eq_some : T.tryFrom n = some v ↔ value v = n := by
  unfold tryFrom
  constructor
  · intro h
    split at h
    · next hn =>
      cases h
      rw [value_ofInt, residue_of_reduced hn]
    · cases h
  · rintro rfl
    rw [if_pos (inRange_value v), ofInt_value]

theorem tryFrom_eq_none : T.tryFrom n = none ↔ ¬ T.InRange n := by
  unfold tryFrom
  split <;> simp [*]

theorem value_ofInt_of_inRange (h : T.InRange n) : value (T := T) (.ofInt _ n) = n := by
  rw [value_ofInt]
  exact residue_of_reduced h

/-- An operation whose result fits gives it in every build. -/
theorem arith_of_inRange (checked : Bool) (h : T.InRange n) :
    T.arith checked n = some (.ofInt _ n) := by
  cases checked with
  | false => rfl
  | true => exact if_pos h

theorem arith_of_not_inRange (h : ¬ T.InRange n) : T.arith true n = none := tryFrom_eq_none.mpr h

theorem arith_value (checked : Bool) (v : T.Val) : T.arith checked (value v) = some v := by
  rw [arith_of_inRange checked (inRange_value v), ofInt_value]

/-- A left shift multiplies, and drops what does not fit. -/
theorem value_shiftLeft (v : T.Val) (k : Nat) :
    value (v <<< k) = T.residue (2 ^ T.bits) (2 ^ k * value v) := by
  have hshift : v <<< k = .ofInt _ (2 ^ k * value v) := by
    have hpow : BitVec.ofInt T.bits (2 ^ k) = BitVec.twoPow T.bits k := by
      apply BitVec.eq_of_toNat_eq
      rw [BitVec.toNat_ofInt, BitVec.toNat_twoPow]
      exact_mod_cast Int.toNat_natCast _
    rw [BitVec.ofInt_mul, ofInt_value, hpow, BitVec.shiftLeft_eq_mul_twoPow, BitVec.mul_comm]
  rw [hshift, value_ofInt]

end Values

end Format

end MachineInt
