import Mathlib.Data.Nat.Digits.Defs
import WhaleLand.Lib.Collect

/-!
# Numerals

A loop that reads a numeral goes over its characters and keeps the value of the
digits so far. It fails at what is not a digit, and when the value leaves the
range of the result. As the value only grows, it is enough that the value of
all the digits is in range (`foldlM_eq_ok`).
-/

namespace Numeral

open Collect

/-- The value of digits, the most significant first. -/
def value (radix : Nat) (digits : List Nat) : Nat := Nat.ofDigits radix digits.reverse

variable {radix : Nat}

@[simp] theorem value_nil : value radix [] = 0 := rfl

theorem value_cons (d : Nat) (digits : List Nat) :
    value radix (d :: digits) = d * radix ^ digits.length + value radix digits := by
  unfold value
  rw [Nat.ofDigits_reverse_cons, Nat.add_comm, Nat.mul_comm]

/-- The value after one more digit, and then the others. -/
theorem push_value (n d : Nat) (digits : List Nat) :
    (n * radix + d) * radix ^ digits.length + value radix digits =
      n * radix ^ (d :: digits).length + value radix (d :: digits) := by
  rw [value_cons, List.length_cons, Nat.pow_succ', Nat.add_mul, Nat.mul_assoc, Nat.add_assoc]

variable {α : Type} {ε : Type} {digit : α → Option Nat} {push : Nat → α → Except ε Nat}
  {size : Nat}

/-- What the loop returns for a whole numeral. -/
theorem foldlM_eq_ok (hradix : 0 < radix)
    (hpush : ∀ n c m, push n c = .ok m ↔ ∃ d, digit c = some d ∧ m = n * radix + d ∧ m < size)
    {l : List α} {n m : Nat} (hn : n < size) :
    l.foldlM push n = .ok m ↔
      ∃ digits, List.Forall₂ (fun c d => digit c = some d) l digits ∧
        m = n * radix ^ digits.length + value radix digits ∧ m < size := by
  induction l generalizing n with
  | nil =>
    rw [List.foldlM_nil]
    constructor
    · intro h
      cases h
      exact ⟨[], .nil, by simp, hn⟩
    · rintro ⟨digits, hdigits, hm, -⟩
      cases hdigits
      rw [hm, List.length_nil, Nat.pow_zero, Nat.mul_one, value_nil]
      rfl
  | cons c l ih =>
    rw [List.foldlM_cons, bind_eq_ok]
    constructor
    · rintro ⟨n', hc, hl⟩
      obtain ⟨d, hd, hn', hlt⟩ := (hpush n c n').mp hc
      obtain ⟨digits, hdigits, hm, hm_lt⟩ := (ih hlt).mp hl
      exact ⟨d :: digits, .cons hd hdigits, by rw [hm, hn', push_value], hm_lt⟩
    · rintro ⟨digits, hdigits, hm, hm_lt⟩
      cases hdigits with
      | @cons _ d _ digits hd hdigits =>
        rw [← push_value] at hm
        -- the value so far is at most that of the whole numeral
        have hle : n * radix + d ≤ m := by
          rw [hm]
          exact Nat.le_add_right_of_le (Nat.le_mul_of_pos_right _ (Nat.pow_pos hradix))
        have hlt := Nat.lt_of_le_of_lt hle hm_lt
        exact ⟨n * radix + d, (hpush _ _ _).mpr ⟨d, hd, rfl, hlt⟩,
          (ih hlt).mpr ⟨digits, hdigits, hm, hm_lt⟩⟩

end Numeral
