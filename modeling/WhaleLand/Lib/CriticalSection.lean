import Mathlib.Logic.Function.Basic
import Mathlib.Logic.Relation

/-!
# Routines that work under one lock

A `Routine` does some work of its own, takes a lock, works on a shared
resource in small steps, gives the lock back and returns. Any number of tasks
call it, one call after another, and their steps interleave freely. Which of
the waiting tasks gets a free lock is left open, so every queueing discipline
is covered.

`serialized` is the result: whatever the interleaving, the resource has gone
through the finished calls one whole call after the other, in the order in
which they took the lock, followed by the steps made so far by the call that
holds the lock (`Serialized`).
-/

namespace CriticalSection

open Relation

/-- A routine on a resource `Res`, called with a `Call` and returning an `Out`.
`enter` is what a call does before it takes the lock: it returns at once, or it
wants the lock and will start at a point. -/
structure Routine (Call Res Out : Type) where
  Point : Type
  enter : Call → Out ⊕ Point
  step : Point → Res → Point → Res → Prop
  result : Point → Option Out

variable {Call Res Out Task : Type} {R : Routine Call Res Out}

/-- The steps of a call that holds the lock, on its point and the resource. -/
def Routine.move (R : Routine Call Res Out) (a b : R.Point × Res) : Prop :=
  R.step a.1 a.2 b.1 b.2

/-- Where a task is. -/
inductive Phase (R : Routine Call Res Out)
  | idle
  | waiting (c : Call) (p : R.Point)
  | inside (c : Call) (p : R.Point)
  | returned (c : Call) (o : Out)

/-- The tasks, the lock, the resource, and as history the calls that have held
the lock and released it, in lock order. -/
structure State (R : Routine Call Res Out) (Task : Type) where
  phase : Task → Phase R
  holder : Option Task
  resource : Res
  finished : List (Task × Call × Out)

/-- Nobody has called yet. -/
def State.init (R : Routine Call Res Out) (Task : Type) (r : Res) : State R Task :=
  ⟨fun _ => .idle, none, r, []⟩

/-- The phase of a task that has just called. -/
def Routine.called (R : Routine Call Res Out) (c : Call) : Phase R :=
  match R.enter c with
  | .inl o => .returned c o
  | .inr p => .waiting c p

/-- A task that is not in a call. -/
def Phase.Free : Phase R → Prop
  | .idle | .returned _ _ => True
  | .waiting _ _ | .inside _ _ => False

/-! ## Serial histories -/

/-- `History R r calls r'`: running the calls one after the other, each from
its start to its result, takes the resource from `r` to `r'`. -/
inductive History (R : Routine Call Res Out) (r : Res) : List (Task × Call × Out) → Res → Prop
  | nil : History R r [] r
  | snoc {calls : List (Task × Call × Out)} {t : Task} {c : Call} {o : Out}
      {p₀ p : R.Point} {r₁ r₂ : Res} :
      History R r calls r₁ → R.enter c = .inr p₀ →
      ReflTransGen R.move (p₀, r₁) (p, r₂) → R.result p = some o →
      History R r (calls ++ [(t, c, o)]) r₂

/-- What the `i`-th call does when it starts from a resource that is good for
`i` calls, it does in every history. -/
theorem History.indexed (Good : Nat → Res → Prop) (Meets : Nat → Call → Out → Prop)
    (hcall : ∀ i c o p₀ p r r', Good i r → R.enter c = .inr p₀ →
      ReflTransGen R.move (p₀, r) (p, r') → R.result p = some o →
      Meets i c o ∧ Good (i + 1) r')
    {r r' : Res} {calls : List (Task × Call × Out)} (hr : Good 0 r) (h : History R r calls r') :
    Good calls.length r' ∧
      ∀ i t c o, calls[i]? = some (t, c, o) → Meets i c o := by
  induction h with
  | nil => exact ⟨hr, fun i t c o hi => by simp at hi⟩
  | @snoc calls t c o p₀ p r₁ r₂ _ henter hrun hres ih =>
    obtain ⟨hgood, hmeets⟩ := ih
    obtain ⟨hnew, hgood'⟩ := hcall _ c o p₀ p r₁ r₂ hgood henter hrun hres
    refine ⟨by simpa using hgood', fun i t' c' o' hi => ?_⟩
    rcases Nat.lt_trichotomy i calls.length with hlt | rfl | hgt
    · rw [List.getElem?_append_left hlt] at hi
      exact hmeets i t' c' o' hi
    · simp only [List.getElem?_concat_length, Option.some.injEq, Prod.mk.injEq] at hi
      obtain ⟨_, rfl, rfl⟩ := hi
      exact hnew
    · rw [List.getElem?_eq_none (by simp; omega)] at hi
      cases hi

/-- The state is what a serial execution in lock order leaves, cut off inside
the call that holds the lock. -/
structure Serialized (r : Res) (s : State R Task) : Prop where
  /-- Only the holder is inside. -/
  exclusive : ∀ t c p, s.phase t = .inside c p → s.holder = some t
  /-- With the lock free, the resource is where the finished calls left it. -/
  free : s.holder = none → History R r s.finished s.resource
  /-- With the lock held, the holder has taken it on from there. -/
  held : ∀ t, s.holder = some t → ∃ c p₀ p r₁, s.phase t = .inside c p ∧
    R.enter c = .inr p₀ ∧ History R r s.finished r₁ ∧
    ReflTransGen R.move (p₀, r₁) (p, s.resource)
  /-- A waiting call has only done its own work. -/
  waiting : ∀ t c p, s.phase t = .waiting c p → R.enter c = .inr p
  /-- A call returned without the lock, or it is among the finished ones. -/
  returned : ∀ t c o, s.phase t = .returned c o → R.enter c = .inl o ∨ (t, c, o) ∈ s.finished

theorem Serialized.exists_history {r : Res} {s : State R Task} (h : Serialized r s) :
    ∃ r', History R r s.finished r' := by
  cases hholder : s.holder with
  | none => exact ⟨_, h.free hholder⟩
  | some t =>
    obtain ⟨_, _, _, r', _, _, hhist, _⟩ := h.held t hholder
    exact ⟨r', hhist⟩

theorem called_ne_inside (c c' : Call) (p : R.Point) : R.called c ≠ .inside c' p := by
  unfold Routine.called
  cases R.enter c <;> simp

theorem called_waiting {c c' : Call} {p : R.Point} (h : R.called c = .waiting c' p) :
    R.enter c' = .inr p := by
  unfold Routine.called at h
  cases he : R.enter c with
  | inl o => rw [he] at h; cases h
  | inr q => rw [he] at h; cases h; exact he

theorem called_returned {c c' : Call} {o : Out} (h : R.called c = .returned c' o) :
    R.enter c' = .inl o := by
  unfold Routine.called at h
  cases he : R.enter c with
  | inl q => rw [he] at h; cases h; exact he
  | inr p => rw [he] at h; cases h

theorem serialized_init (r : Res) : Serialized r (State.init R Task r) where
  exclusive _ _ _ h := by cases h
  free _ := .nil
  held _ h := by cases h
  waiting _ _ _ h := by cases h
  returned _ _ _ h := by cases h

/-! ## Every interleaving is serial -/

variable [DecidableEq Task]

/-- One step of one task. -/
inductive Step : State R Task → State R Task → Prop
  | call {s : State R Task} {t : Task} {c : Call} :
      (s.phase t).Free →
      Step s { s with phase := Function.update s.phase t (R.called c) }
  | acquire {s : State R Task} {t : Task} {c : Call} {p : R.Point} :
      s.phase t = .waiting c p → s.holder = none →
      Step s { s with phase := Function.update s.phase t (.inside c p), holder := some t }
  | work {s : State R Task} {t : Task} {c : Call} {p p' : R.Point} {r' : Res} :
      s.phase t = .inside c p → R.step p s.resource p' r' →
      Step s { s with phase := Function.update s.phase t (.inside c p'), resource := r' }
  | release {s : State R Task} {t : Task} {c : Call} {p : R.Point} {o : Out} :
      s.phase t = .inside c p → R.result p = some o →
      Step s { s with phase := Function.update s.phase t (.returned c o), holder := none,
                      finished := s.finished ++ [(t, c, o)] }

/-- A function changed at one point has the new value there and its old values
elsewhere. -/
theorem of_update {f : Task → Phase R} {t u : Task} {x y : Phase R}
    (h : Function.update f t x u = y) : (u = t ∧ x = y) ∨ (u ≠ t ∧ f u = y) := by
  by_cases hut : u = t
  · subst hut
    rw [Function.update_self] at h
    exact .inl ⟨rfl, h⟩
  · rw [Function.update_of_ne hut] at h
    exact .inr ⟨hut, h⟩

theorem serialized_call {r : Res} {s : State R Task} {t : Task} {c : Call}
    (hs : Serialized r s) (hfree : (s.phase t).Free) :
    Serialized r { s with phase := Function.update s.phase t (R.called c) } := by
  refine ⟨fun u c' p hu => ?_, hs.free, fun u hu => ?_, fun u c' p hu => ?_, fun u c' o hu => ?_⟩
  · rcases of_update hu with ⟨_, hx⟩ | ⟨_, hu⟩
    · exact absurd hx (called_ne_inside c c' p)
    · exact hs.exclusive u c' p hu
  · obtain ⟨c', p₀, p, r₁, hin, hrest⟩ := hs.held u hu
    have hut : u ≠ t := by
      rintro rfl
      rw [hin] at hfree
      exact hfree
    exact ⟨c', p₀, p, r₁, (Function.update_of_ne hut ..).trans hin, hrest⟩
  · rcases of_update hu with ⟨_, hx⟩ | ⟨_, hu⟩
    · exact called_waiting hx
    · exact hs.waiting u c' p hu
  · rcases of_update hu with ⟨_, hx⟩ | ⟨_, hu⟩
    · exact .inl (called_returned hx)
    · exact hs.returned u c' o hu

theorem serialized_acquire {r : Res} {s : State R Task} {t : Task} {c : Call} {p : R.Point}
    (hs : Serialized r s) (hwait : s.phase t = .waiting c p) (hnone : s.holder = none) :
    Serialized r
      { s with phase := Function.update s.phase t (.inside c p), holder := some t } := by
  refine ⟨fun u c' p' hu => ?_, (fun hfree => by cases hfree), fun u hu => ?_,
    fun u c' p' hu => ?_, fun u c' o hu => ?_⟩
  · rcases of_update hu with ⟨hut, _⟩ | ⟨_, hu⟩
    · rw [hut]
    · rw [hs.exclusive u c' p' hu] at hnone
      cases hnone
  · cases hu
    exact ⟨c, p, p, s.resource, Function.update_self .., hs.waiting _ c p hwait, hs.free hnone,
      .refl⟩
  · rcases of_update hu with ⟨_, hx⟩ | ⟨_, hu⟩
    · cases hx
    · exact hs.waiting u c' p' hu
  · rcases of_update hu with ⟨_, hx⟩ | ⟨_, hu⟩
    · cases hx
    · exact hs.returned u c' o hu

theorem serialized_work {r r' : Res} {s : State R Task} {t : Task} {c : Call} {p p' : R.Point}
    (hs : Serialized r s) (hin : s.phase t = .inside c p) (hstep : R.step p s.resource p' r') :
    Serialized r
      { s with phase := Function.update s.phase t (.inside c p'), resource := r' } := by
  have hholder := hs.exclusive t c p hin
  refine ⟨fun u c' q hu => ?_, fun hfree => ?_, fun u hu => ?_, fun u c' q hu => ?_,
    fun u c' o hu => ?_⟩
  · rcases of_update hu with ⟨hut, _⟩ | ⟨_, hu⟩
    · rw [hut]
      exact hholder
    · exact hs.exclusive u c' q hu
  · rw [hholder] at hfree
    cases hfree
  · rw [hholder] at hu
    cases hu
    obtain ⟨c', p₀, q, r₁, hin', henter, hhist, hrun⟩ := hs.held t hholder
    rw [hin] at hin'
    cases hin'
    exact ⟨c, p₀, p', r₁, Function.update_self .., henter, hhist, hrun.tail hstep⟩
  · rcases of_update hu with ⟨_, hx⟩ | ⟨_, hu⟩
    · cases hx
    · exact hs.waiting u c' q hu
  · rcases of_update hu with ⟨_, hx⟩ | ⟨_, hu⟩
    · cases hx
    · exact hs.returned u c' o hu

theorem serialized_release {r : Res} {s : State R Task} {t : Task} {c : Call} {p : R.Point}
    {o : Out} (hs : Serialized r s) (hin : s.phase t = .inside c p)
    (hres : R.result p = some o) :
    Serialized r { s with phase := Function.update s.phase t (.returned c o), holder := none,
                          finished := s.finished ++ [(t, c, o)] } := by
  have hholder := hs.exclusive t c p hin
  refine ⟨fun u c' q hu => ?_, fun _ => ?_, (fun u hu => by cases hu), fun u c' q hu => ?_,
    fun u c' o' hu => ?_⟩
  · rcases of_update hu with ⟨_, hx⟩ | ⟨hut, hu⟩
    · cases hx
    · have hu' := hs.exclusive u c' q hu
      rw [hholder] at hu'
      exact absurd (Option.some.inj hu').symm hut
  · obtain ⟨c', p₀, q, r₁, hin', henter, hhist, hrun⟩ := hs.held t hholder
    rw [hin] at hin'
    cases hin'
    exact hhist.snoc henter hrun hres
  · rcases of_update hu with ⟨_, hx⟩ | ⟨_, hu⟩
    · cases hx
    · exact hs.waiting u c' q hu
  · rcases of_update hu with ⟨rfl, hx⟩ | ⟨_, hu⟩
    · cases hx
      exact .inr (List.mem_append_right _ (List.mem_singleton.mpr rfl))
    · exact (hs.returned u c' o' hu).imp_right (List.mem_append_left _)

/-- A step of a task keeps the state serialized. -/
theorem serialized_step {r : Res} {s s' : State R Task} (hs : Serialized r s) (h : Step s s') :
    Serialized r s' := by
  cases h with
  | call hfree => exact serialized_call hs hfree
  | acquire hwait hnone => exact serialized_acquire hs hwait hnone
  | work hin hstep => exact serialized_work hs hin hstep
  | release hin hres => exact serialized_release hs hin hres

/-- Every reachable state is serialized. -/
theorem serialized {r : Res} {s : State R Task}
    (h : ReflTransGen Step (State.init R Task r) s) : Serialized r s := by
  induction h with
  | refl => exact serialized_init r
  | tail _ hlast ih => exact serialized_step ih hlast

/-! ## Another resource -/

/-- The steps of a call go on in the same way with a resource on which the
routine's steps are the same. -/
theorem moves_of_resource (Good : Res → Prop) (f : Res → Res)
    (hstep : ∀ p r p' r', Good r → R.step p r p' r' → R.step p (f r) p' (f r') ∧ Good r')
    {a b : R.Point × Res} (ha : Good a.2) (h : ReflTransGen R.move a b) :
    ReflTransGen R.move (a.1, f a.2) (b.1, f b.2) ∧ Good b.2 := by
  induction h with
  | refl => exact ⟨.refl, ha⟩
  | @tail b d _ hmove ih =>
    obtain ⟨hrun, hb⟩ := ih
    obtain ⟨hmove', hd⟩ := hstep b.1 b.2 d.1 d.2 hb hmove
    exact ⟨hrun.tail hmove', hd⟩

/-- So does the whole system. -/
theorem run_of_resource (Good : Res → Prop) (f : Res → Res)
    (hstep : ∀ p r p' r', Good r → R.step p r p' r' → R.step p (f r) p' (f r') ∧ Good r')
    {r : Res} (hr : Good r) {s : State R Task} (h : ReflTransGen Step (State.init R Task r) s) :
    ReflTransGen Step (State.init R Task (f r)) { s with resource := f s.resource } ∧
      Good s.resource := by
  induction h with
  | refl => exact ⟨.refl, hr⟩
  | @tail s s' _ hlast ih =>
    obtain ⟨hrun, hs⟩ := ih
    cases hlast with
    | call hfree => exact ⟨hrun.tail (.call hfree), hs⟩
    | acquire hwait hnone => exact ⟨hrun.tail (.acquire hwait hnone), hs⟩
    | @work t c p p' r' hin hmove =>
      obtain ⟨hmove', hgood⟩ := hstep _ _ _ _ hs hmove
      exact ⟨hrun.tail (.work hin hmove'), hgood⟩
    | release hin hres => exact ⟨hrun.tail (.release hin hres), hs⟩

/-! ## Calls that are given up -/

/-- A step of a task, or the end of a call that is given up while it waits for
the lock. (A call that is given up with the lock is a matter of the routine.) -/
inductive CancelStep : State R Task → State R Task → Prop
  | step {s s' : State R Task} : Step s s' → CancelStep s s'
  | cancel {s : State R Task} {t : Task} {c : Call} {p : R.Point} :
      s.phase t = .waiting c p →
      CancelStep s { s with phase := Function.update s.phase t .idle }

theorem cancelSteps_of_steps {s s' : State R Task} (h : ReflTransGen Step s s') :
    ReflTransGen CancelStep s s' := by
  induction h with
  | refl => exact .refl
  | tail _ hlast ih => exact ih.tail (.step hlast)

theorem serialized_cancel {r : Res} {s : State R Task} {t : Task} {c : Call} {p : R.Point}
    (hs : Serialized r s) (hwait : s.phase t = .waiting c p) :
    Serialized r { s with phase := Function.update s.phase t .idle } := by
  refine ⟨fun u c' p' hu => ?_, hs.free, fun u hu => ?_, fun u c' p' hu => ?_,
    fun u c' o hu => ?_⟩
  · rcases of_update hu with ⟨_, hx⟩ | ⟨_, hu⟩
    · cases hx
    · exact hs.exclusive u c' p' hu
  · obtain ⟨c', p₀, p', r₁, hin, hrest⟩ := hs.held u hu
    have hut : u ≠ t := by
      rintro rfl
      rw [hin] at hwait
      cases hwait
    exact ⟨c', p₀, p', r₁, (Function.update_of_ne hut ..).trans hin, hrest⟩
  · rcases of_update hu with ⟨_, hx⟩ | ⟨_, hu⟩
    · cases hx
    · exact hs.waiting u c' p' hu
  · rcases of_update hu with ⟨_, hx⟩ | ⟨_, hu⟩
    · cases hx
    · exact hs.returned u c' o hu

/-- Giving up does not disturb the others. -/
theorem serialized_of_cancel {r : Res} {s : State R Task}
    (h : ReflTransGen CancelStep (State.init R Task r) s) : Serialized r s := by
  induction h with
  | refl => exact serialized_init r
  | tail _ hlast ih =>
    cases hlast with
    | step hstep => exact serialized_step ih hstep
    | cancel hwait => exact serialized_cancel ih hwait

/-! ## A call on its own -/

/-- The steps of a call that has the lock are steps of the system. -/
theorem exists_run_of_moves {s : State R Task} {t : Task} {c : Call} {p : R.Point}
    {b : R.Point × Res} (hin : s.phase t = .inside c p)
    (hmoves : ReflTransGen R.move (p, s.resource) b) :
    ∃ s', ReflTransGen Step s s' ∧ s'.phase t = .inside c b.1 ∧ s'.resource = b.2 ∧
      s'.finished = s.finished := by
  induction hmoves with
  | refl => exact ⟨s, .refl, hin, rfl, rfl⟩
  | @tail b d _ hmove ih =>
    obtain ⟨s₁, hrun, hin₁, hres₁, hfin₁⟩ := ih
    have hstep : R.step b.1 s₁.resource d.1 d.2 := hres₁ ▸ hmove
    exact ⟨_, hrun.tail (.work hin₁ hstep), Function.update_self .., rfl, hfin₁⟩

/-- With the lock free, a call can take it. -/
theorem exists_run_of_enter {s : State R Task} {t : Task} {c : Call} {p₀ : R.Point}
    (hfree : (s.phase t).Free) (hlock : s.holder = none) (henter : R.enter c = .inr p₀) :
    ∃ s', ReflTransGen Step s s' ∧ s'.phase t = .inside c p₀ ∧ s'.resource = s.resource ∧
      s'.finished = s.finished := by
  let called : State R Task := { s with phase := Function.update s.phase t (R.called c) }
  have hwait : called.phase t = .waiting c p₀ := by
    simp only [called, Function.update_self, Routine.called, henter]
  have hacquire : Step called { called with
      phase := Function.update called.phase t (.inside c p₀), holder := some t } :=
    .acquire hwait hlock
  exact ⟨_, (ReflTransGen.single hacquire).head (.call hfree), Function.update_self .., rfl, rfl⟩

/-- With the lock free, a call can take it and return. -/
theorem exists_run_of_call {s : State R Task} {t : Task} {c : Call} {p₀ p : R.Point} {r' : Res}
    {o : Out} (hfree : (s.phase t).Free) (hlock : s.holder = none) (henter : R.enter c = .inr p₀)
    (hmoves : ReflTransGen R.move (p₀, s.resource) (p, r')) (hres : R.result p = some o) :
    ∃ s', ReflTransGen Step s s' ∧ s'.finished = s.finished ++ [(t, c, o)] ∧
      s'.resource = r' ∧ s'.holder = none ∧ (s'.phase t).Free := by
  obtain ⟨inside, hentered, hin₀, hres₀, hfin₀⟩ := exists_run_of_enter hfree hlock henter
  rw [← hres₀] at hmoves
  obtain ⟨s', hrun, hin, rfl, hfin⟩ := exists_run_of_moves hin₀ hmoves
  refine ⟨_, (hentered.trans hrun).tail (.release hin hres), by rw [hfin, hfin₀], rfl, rfl, ?_⟩
  show (Function.update s'.phase t (.returned c o) t).Free
  rw [Function.update_self]
  trivial

end CriticalSection
