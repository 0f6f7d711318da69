import WhaleLand.Lib.CriticalSection

/-!
# Refinement of routines

A routine refines another one if its points lie over points of that one, and
each of its steps is either a step there or changes nothing there
(`Refines`). Calls may be given up. Then every run of the refining system lies
over a run of the other one (`run_of_refines`), and what is known about the
states of that one holds of its own.
-/

namespace CriticalSection

open Relation

variable {Call Res Out Task : Type} {R R' : Routine Call Res Out}

/-- `R'` refines `R`. `Good` is what holds of the points that a call comes
to. -/
structure Refines (R' R : Routine Call Res Out) (base : R'.Point → R.Point)
    (Good : R'.Point → Prop) : Prop where
  enter_inl : ∀ c o, R'.enter c = .inl o → R.enter c = .inl o
  enter_inr : ∀ c p, R'.enter c = .inr p → R.enter c = .inr (base p) ∧ Good p
  step : ∀ p r p' r', Good p → R'.step p r p' r' →
    Good p' ∧ ((base p' = base p ∧ r' = r) ∨ R.step (base p) r (base p') r')
  result : ∀ p o, R'.result p = some o → R.result (base p) = some o

/-- The phase over a phase. -/
def Phase.map (base : R'.Point → R.Point) : Phase R' → Phase R
  | .idle => .idle
  | .waiting c p => .waiting c (base p)
  | .inside c p => .inside c (base p)
  | .returned c o => .returned c o

/-- The state over a state. -/
def State.map (base : R'.Point → R.Point) (s : State R' Task) : State R Task where
  phase t := (s.phase t).map base
  holder := s.holder
  resource := s.resource
  finished := s.finished

/-- The points of calls in progress are good. -/
def Phase.IsGood (Good : R'.Point → Prop) : Phase R' → Prop
  | .waiting _ p | .inside _ p => Good p
  | .idle | .returned _ _ => True

section Phases

variable {base : R'.Point → R.Point} {Good : R'.Point → Prop}

theorem Phase.Free.map {phase : Phase R'} (h : phase.Free) : (phase.map base).Free := by
  cases phase with
  | idle | returned _ _ => trivial
  | waiting _ _ | inside _ _ => exact h.elim

theorem map_called (h : Refines R' R base Good) (c : Call) :
    (R'.called c).map base = R.called c ∧ (R'.called c).IsGood Good := by
  unfold Routine.called
  cases henter : R'.enter c with
  | inl o =>
    rw [h.enter_inl c o henter]
    exact ⟨rfl, trivial⟩
  | inr p =>
    obtain ⟨heq, hgood⟩ := h.enter_inr c p henter
    rw [heq]
    exact ⟨rfl, hgood⟩

variable [DecidableEq Task]

theorem map_update (base : R'.Point → R.Point) (phase : Task → Phase R') (t : Task)
    (x : Phase R') :
    (fun u => (Function.update phase t x u).map base) =
      Function.update (fun u => (phase u).map base) t (x.map base) :=
  Function.comp_update (Phase.map base) phase t x

theorem isGood_update {phase : Task → Phase R'} (hgood : ∀ u, (phase u).IsGood Good) {t : Task}
    {x : Phase R'} (hx : x.IsGood Good) (u : Task) :
    (Function.update phase t x u).IsGood Good := by
  by_cases hut : u = t
  · subst hut
    rwa [Function.update_self]
  · rw [Function.update_of_ne hut]
    exact hgood u

end Phases

section Runs

variable [DecidableEq Task] {base : R'.Point → R.Point} {Good : R'.Point → Prop}
  {s s' : State R' Task}

theorem step_of_refines (h : Refines R' R base Good) (hs : ∀ u, (s.phase u).IsGood Good)
    (hstep : Step s s') :
    (∀ u, (s'.phase u).IsGood Good) ∧ ReflTransGen Step (s.map base) (s'.map base) := by
  cases hstep with
  | @call t c hfree =>
    obtain ⟨hcalled, hgood⟩ := map_called h c
    refine ⟨isGood_update hs hgood, .single ?_⟩
    simp only [State.map, map_update, hcalled]
    exact .call hfree.map
  | @acquire t c p hwait hnone =>
    have hgood := hs t
    rw [hwait] at hgood
    refine ⟨isGood_update hs hgood, .single ?_⟩
    simp only [State.map, map_update]
    have hwait' : ((s.map base).phase t) = .waiting c (base p) := congrArg (Phase.map base) hwait
    exact .acquire hwait' hnone
  | @work t c p p' r' hin hmove =>
    have hgood := hs t
    rw [hin] at hgood
    obtain ⟨hgood', hover⟩ := h.step p _ p' r' hgood hmove
    have hin' : (s.map base).phase t = .inside c (base p) := congrArg (Phase.map base) hin
    refine ⟨isGood_update hs hgood', ?_⟩
    simp only [State.map, map_update]
    rcases hover with ⟨hsame, rfl⟩ | hmove'
    · -- nothing has happened below
      have hphase : Function.update (fun u => (s.phase u).map base) t (.inside c (base p')) =
          fun u => (s.phase u).map base := by
        rw [hsame, ← hin']
        exact Function.update_eq_self ..
      simp only [Phase.map] at hphase ⊢
      rw [hphase]
    · exact .single (.work hin' hmove')
  | @release t c p o hin hres =>
    refine ⟨isGood_update hs trivial, .single ?_⟩
    simp only [State.map, map_update]
    have hin' : (s.map base).phase t = .inside c (base p) := congrArg (Phase.map base) hin
    exact .release hin' (h.result p o hres)

theorem cancelStep_of_refines (h : Refines R' R base Good) (hs : ∀ u, (s.phase u).IsGood Good)
    (hstep : CancelStep s s') :
    (∀ u, (s'.phase u).IsGood Good) ∧ ReflTransGen CancelStep (s.map base) (s'.map base) := by
  cases hstep with
  | step hstep =>
    obtain ⟨hgood, hrun⟩ := step_of_refines h hs hstep
    exact ⟨hgood, cancelSteps_of_steps hrun⟩
  | @cancel t c p hwait =>
    refine ⟨isGood_update hs trivial, .single ?_⟩
    simp only [State.map, map_update]
    have hwait' : (s.map base).phase t = .waiting c (base p) := congrArg (Phase.map base) hwait
    exact .cancel hwait'

/-- Every run of the refining system lies over a run of the other one. -/
theorem run_of_refines (h : Refines R' R base Good) {r : Res}
    (hrun : ReflTransGen CancelStep (State.init R' Task r) s) :
    (∀ u, (s.phase u).IsGood Good) ∧
      ReflTransGen CancelStep (State.init R Task r) (s.map base) := by
  induction hrun with
  | refl => exact ⟨fun _ => trivial, .refl⟩
  | tail _ hlast ih =>
    obtain ⟨hgood, hrun⟩ := ih
    obtain ⟨hgood', hsteps⟩ := cancelStep_of_refines h hgood hlast
    exact ⟨hgood', hrun.trans hsteps⟩

end Runs

end CriticalSection
