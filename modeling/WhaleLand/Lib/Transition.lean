import Mathlib.Logic.Relation

/-!
# Runs of a step relation

A run is a chain of steps (`Relation.ReflTransGen`). `Ends step s` says that
the system cannot move from `s`. `Inevitable step Post s` is total correctness
over every run at once: no run from `s` goes on forever, and every run that
cannot be continued ends in a state that satisfies `Post`.

`Inevitable.of_wellFounded` proves it, one loop at a time. Two things refute it: a
state where the system is stuck without `Post` (`not_inevitable_of_stuck`) and
a set of states that the system need never leave (`not_inevitable_of_trap`).
Where all runs end in one state, that state decides it
(`Inevitable.iff_of_eq`).
-/

namespace Transition

open Relation

variable {σ : Type*} {step : σ → σ → Prop} {Post : σ → Prop} {s s' : σ}

/-- The system cannot move from `s`. -/
def Ends (step : σ → σ → Prop) (s : σ) : Prop := ∀ s', ¬ step s s'

/-- Every run from `s` is finite and can only end where `Post` holds. -/
structure Inevitable (step : σ → σ → Prop) (Post : σ → Prop) (s : σ) : Prop where
  finite : Acc (fun a b => step b a) s
  post : ∀ s', ReflTransGen step s s' → Ends step s' → Post s'

/-! ## Proving it -/

/-- A run that is over. -/
theorem Inevitable.of_end (hends : Ends step s) (hpost : Post s) : Inevitable step Post s := by
  refine ⟨⟨s, fun s' hstep => absurd hstep (hends s')⟩, fun s' hrun _ => ?_⟩
  rcases hrun.cases_head with rfl | ⟨b, hstep, _⟩
  · exact hpost
  · exact absurd hstep (hends b)

/-- Some step is possible, and it holds after every one. -/
theorem Inevitable.of_steps (hprogress : ∃ s', step s s')
    (hsteps : ∀ s', step s s' → Inevitable step Post s') : Inevitable step Post s := by
  refine ⟨⟨s, fun s' hstep => (hsteps s' hstep).finite⟩, fun s' hrun hends => ?_⟩
  rcases hrun.cases_head with rfl | ⟨b, hstep, hrest⟩
  · obtain ⟨b, hstep⟩ := hprogress
    exact absurd hstep (hends b)
  · exact (hsteps b hstep).post s' hrest hends

/-- The rule for loops. In the loop a step is always possible; it lowers a
measure and stays in the loop, or it leaves for a state where the rest is
known. -/
theorem Inevitable.of_wellFounded {β : Type*} {lt : β → β → Prop} (hwf : WellFounded lt)
    (Inv : σ → Prop) (measure : σ → β)
    (hprogress : ∀ s, Inv s → ∃ s', step s s')
    (hstep : ∀ s s', Inv s → step s s' →
      (Inv s' ∧ lt (measure s') (measure s)) ∨ Inevitable step Post s')
    (hs : Inv s) : Inevitable step Post s := by
  induction hm : measure s using hwf.induction generalizing s with
  | _ m ih =>
    subst hm
    refine .of_steps (hprogress s hs) fun s' hs' => ?_
    rcases hstep s s' hs hs' with ⟨hinv, hlt⟩ | hleft
    · exact ih _ hlt hinv rfl
    · exact hleft

/-- A loop that counts down. -/
theorem Inevitable.of_loop (Inv : σ → Prop) (measure : σ → Nat)
    (hprogress : ∀ s, Inv s → ∃ s', step s s')
    (hstep : ∀ s s', Inv s → step s s' →
      (Inv s' ∧ measure s' < measure s) ∨ Inevitable step Post s')
    (hs : Inv s) : Inevitable step Post s :=
  .of_wellFounded Nat.lt_wfRel.wf Inv measure hprogress hstep hs

/-! ## Using it -/

theorem Inevitable.mono {Post' : σ → Prop} (h : Inevitable step Post s)
    (himp : ∀ s', Post s' → Post' s') : Inevitable step Post' s :=
  ⟨h.finite, fun s' hrun hends => himp s' (h.post s' hrun hends)⟩

/-- It survives every step. -/
theorem Inevitable.of_run (h : Inevitable step Post s) (hrun : ReflTransGen step s s') :
    Inevitable step Post s' := by
  refine ⟨?_, fun s'' hrun' hends => h.post s'' (hrun.trans hrun') hends⟩
  induction hrun with
  | refl => exact h.finite
  | tail _ hlast ih => exact ih.inv hlast

/-- Some run does end. -/
theorem Inevitable.exists_end (h : Inevitable step Post s) :
    ∃ s', ReflTransGen step s s' ∧ Ends step s' := by
  induction h.finite with
  | intro s _ ih =>
    by_cases hends : Ends step s
    · exact ⟨s, .refl, hends⟩
    · obtain ⟨s', hs'⟩ : ∃ s', step s s' := by
        simpa [Ends, Classical.not_forall] using hends
      obtain ⟨e, hrun, hend⟩ := ih s' hs' (h.of_run (.single hs'))
      exact ⟨e, hrun.head hs', hend⟩

/-- When all runs end in one state, it is that state that counts. -/
theorem Inevitable.iff_of_eq {e : σ} (h : Inevitable step (· = e) s) :
    Inevitable step Post s ↔ Post e := by
  constructor
  · intro hpost
    obtain ⟨s', hrun, hends⟩ := h.exists_end
    have heq := h.post s' hrun hends
    exact heq ▸ hpost.post s' hrun hends
  · intro hpost
    exact h.mono fun s' heq => heq ▸ hpost

/-! ## Refuting it -/

/-- A set of states in which the system can always move on keeps it running
forever. -/
theorem not_inevitable_of_trap (Trap : σ → Prop)
    (htrap : ∀ s, Trap s → ∃ s', step s s' ∧ Trap s') (hs : Trap s) :
    ¬ Inevitable step Post s := by
  intro h
  induction h.finite with
  | intro s _ ih =>
    obtain ⟨s', hstep, hs'⟩ := htrap s hs
    exact ih s' hstep hs' (h.of_run (.single hstep))

/-- A reachable state where the system is stuck without `Post` refutes it. -/
theorem not_inevitable_of_stuck (hrun : ReflTransGen step s s') (hends : Ends step s')
    (hpost : ¬ Post s') : ¬ Inevitable step Post s :=
  fun h => hpost (h.post s' hrun hends)

end Transition
