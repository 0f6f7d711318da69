import WhaleLand.Lib.Collect

/-!
# Computations that check as they go

A computation that does nothing but check, and stops at the first check that
fails, is described by the list of its checks in their order: `Follows`. The
rules build this list along the computation: a check of its own, a sequence, a
loop. Of a loop only the items count whose turn checks something.
-/

namespace Checks

open Collect

universe u v

/-- A check: whether it holds, and the error if it does not. -/
structure Check (ε : Type v) where
  holds : Bool
  error : ε

section Failure

variable {ε : Type v} {checks rest : List (Check ε)}

/-- The error of the first check that does not hold. -/
def firstFailure (checks : List (Check ε)) : Option ε :=
  (checks.find? fun check => !check.holds).map Check.error

@[simp] theorem firstFailure_nil : firstFailure ([] : List (Check ε)) = none := rfl

theorem firstFailure_append :
    firstFailure (checks ++ rest) = (firstFailure checks).or (firstFailure rest) := by
  unfold firstFailure
  rw [List.find?_append]
  cases checks.find? fun check => !check.holds <;> rfl

theorem firstFailure_eq_none :
    firstFailure checks = none ↔ ∀ check ∈ checks, check.holds = true := by
  simp [firstFailure]

end Failure

variable {ε : Type v} {σ α β : Type u} {checks rest : List (Check ε)}

/-- The computation returns if all the checks hold, and else stops with the
error of the first that does not. -/
def Follows (x : Except ε α) (checks : List (Check ε)) : Prop :=
  match firstFailure checks with
  | none => ∃ a, x = .ok a
  | some e => x = .error e

theorem follows_ok (a : α) : Follows (.ok a : Except ε α) [] := ⟨a, rfl⟩

/-- A sequence makes the checks of both parts. -/
theorem Follows.bind {x : Except ε α} {f : α → Except ε β} (hx : Follows x checks)
    (hf : ∀ a, x = .ok a → Follows (f a) rest) : Follows (x >>= f) (checks ++ rest) := by
  unfold Follows at hx ⊢
  rw [firstFailure_append]
  cases hfirst : firstFailure checks with
  | none =>
    rw [hfirst] at hx
    obtain ⟨a, rfl⟩ := hx
    exact hf a rfl
  | some e =>
    rw [hfirst] at hx
    rw [hx]
    rfl

/-- What is made of the result checks nothing more. -/
theorem Follows.bind_ok {x : Except ε α} {f : α → β} (hx : Follows x checks) :
    Follows (x >>= fun a => .ok (f a)) checks := by
  rw [← List.append_nil checks]
  exact hx.bind fun a _ => follows_ok (f a)

/-- A loop makes the checks of its turns. -/
theorem Follows.foldlM {step : σ → α → Except ε σ} {checksOf : α → List (Check ε)}
    (h : ∀ s a, Follows (step s a) (checksOf a)) (l : List α) (s : σ) :
    Follows (l.foldlM step s) (l.flatMap checksOf) := by
  induction l generalizing s with
  | nil => exact follows_ok s
  | cons a l ih =>
    rw [List.foldlM_cons, List.flatMap_cons]
    exact (h s a).bind fun s' _ => ih s'

/-- A loop for the items of one kind makes their checks. -/
theorem Follows.foldlM_filter {step : σ → α → Except ε σ} {kind : α → Bool}
    {checksOf : α → List (Check ε)}
    (h : ∀ s a, Follows (step s a) (if kind a then checksOf a else [])) (l : List α) (s : σ) :
    Follows (l.foldlM step s) ((l.filter kind).flatMap checksOf) := by
  induction l generalizing s with
  | nil => exact follows_ok s
  | cons a l ih =>
    have ha := h s a
    rw [List.foldlM_cons]
    cases hkind : kind a with
    | true =>
      rw [hkind] at ha
      rw [List.filter_cons_of_pos hkind, List.flatMap_cons]
      exact ha.bind fun s' _ => ih s'
    | false =>
      rw [hkind] at ha
      rw [List.filter_cons_of_neg (by simp [hkind]), ← List.nil_append (List.flatMap _ _)]
      exact ha.bind fun s' _ => ih s'

theorem Follows.forM {f : α → Except ε PUnit.{u + 1}} {checksOf : α → List (Check ε)}
    (h : ∀ a, Follows (f a) (checksOf a)) (l : List α) :
    Follows (l.forM f) (l.flatMap checksOf) := by
  induction l with
  | nil => exact follows_ok _
  | cons a l ih =>
    rw [List.flatMap_cons]
    exact (h a).bind fun _ _ => ih

theorem Follows.mapM {f : α → Except ε β} {checksOf : α → List (Check ε)}
    (h : ∀ a, Follows (f a) (checksOf a)) (l : List α) :
    Follows (l.mapM f) (l.flatMap checksOf) := by
  induction l with
  | nil => exact follows_ok []
  | cons a l ih =>
    rw [List.mapM_cons, List.flatMap_cons]
    exact (h a).bind fun b _ => ih.bind_ok

/-! ## What the computation does -/

theorem Follows.error_iff {x : Except ε α} (h : Follows x checks) {e : ε} :
    x = .error e ↔ firstFailure checks = some e := by
  unfold Follows at h
  cases hfirst : firstFailure checks with
  | none =>
    rw [hfirst] at h
    obtain ⟨a, rfl⟩ := h
    simp
  | some e' =>
    rw [hfirst] at h
    rw [h]
    simp

theorem Follows.returns_iff {x : Except ε α} (h : Follows x checks) :
    (∃ a, x = .ok a) ↔ ∀ check ∈ checks, check.holds = true := by
  rw [← firstFailure_eq_none]
  unfold Follows at h
  cases hfirst : firstFailure checks with
  | none =>
    rw [hfirst] at h
    simp [h]
  | some e =>
    rw [hfirst] at h
    simp [h]

end Checks
