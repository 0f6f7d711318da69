import Mathlib.Algebra.Group.Basic
import Mathlib.Data.List.Basic

/-!
# Ledgers

Things arrive in a system and are held in it. A ledger compares what has
arrived with what is held, along a run whose steps carry labels. If every step
says what arrives and what is lost with it, the two agree after every step of a
run exactly when no step of the run loses anything (`balanced_iff_along`).
-/

namespace Ledger

variable {σ α M : Type*} {step : σ → α → σ → Prop} {keeps : σ → α → Prop}

/-- A run: each step with its label and the state after it. -/
def IsRun (step : σ → α → σ → Prop) : σ → List (α × σ) → Prop
  | _, [] => True
  | s, (a, s') :: run => step s a s' ∧ IsRun step s' run

/-- The condition holds of every step of the run, in the state before it. -/
def Along (cond : σ → α → Prop) : σ → List (α × σ) → Prop
  | _, [] => True
  | s, (a, s') :: run => cond s a ∧ Along cond s' run

/-- If a condition on each step decides whether it preserves a property, the
property holds along a run exactly when the condition does. -/
theorem forall_iff_along {s : σ} {run : List (α × σ)} (hrun : IsRun step s run) (Inv : σ → Prop)
    (hs : Inv s) (hstep : ∀ s a s', Inv s → step s a s' → (Inv s' ↔ keeps s a)) :
    (∀ x ∈ run, Inv x.2) ↔ Along keeps s run := by
  induction run generalizing s with
  | nil => simp [Along]
  | cons x run ih =>
    obtain ⟨a, s'⟩ := x
    obtain ⟨hfirst, hrun⟩ := hrun
    have hiff := hstep s a s' hs hfirst
    rw [List.forall_mem_cons, hiff, Along]
    exact and_congr_right fun hkeeps => ih hrun (hiff.mpr hkeeps)

variable [AddCommMonoid M] [IsLeftCancelAdd M]

/-- What a step does to the ledger: `new` arrives, and `lost` is held no more. -/
structure Entry (arrived held : σ → M) (s s' : σ) (new lost : M) : Prop where
  arrived : arrived s' = arrived s + new
  held : held s' + lost = held s + new

/-- A step from a balanced state keeps the balance if it loses nothing. -/
theorem Entry.balanced_iff {arrived held : σ → M} {s s' : σ} {new lost : M}
    (h : Entry arrived held s s' new lost) (hs : arrived s = held s) :
    arrived s' = held s' ↔ lost = 0 := by
  rw [h.arrived, hs, ← h.held, add_eq_left]

/-- Along a run, everything that has arrived is held exactly when every step
keeps what there is. -/
theorem balanced_iff_along {s : σ} {run : List (α × σ)} (hrun : IsRun step s run)
    {arrived held : σ → M} (hs : arrived s = held s)
    (hstep : ∀ s a s', step s a s' →
      ∃ new lost, Entry arrived held s s' new lost ∧ (lost = 0 ↔ keeps s a)) :
    (∀ x ∈ run, arrived x.2 = held x.2) ↔ Along keeps s run := by
  refine forall_iff_along hrun (fun s => arrived s = held s) hs fun s a s' hs hfirst => ?_
  obtain ⟨new, lost, hentry, hlost⟩ := hstep s a s' hfirst
  rw [hentry.balanced_iff hs, hlost]

end Ledger
