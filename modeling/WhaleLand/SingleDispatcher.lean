import WhaleLand.DispatchDeadlock
import WhaleLand.Registry
import WhaleLand.Lib.Transition
import Mathlib.Algebra.BigOperators.Group.Finset.Basic
import Mathlib.Algebra.Order.BigOperators.Group.Finset
import Mathlib.Data.Fintype.Basic

/-!
# One task dispatches

Most programs call `dispatch` in a single loop. Any number of other tasks may
register event handlers, and so may the event handlers that run. A set of tasks
that call `dispatch` cannot deadlock if and only if it has at most one member
(`no_deadlock_iff_subsingleton`), and with one dispatcher every call that has
been made returns (`all_calls_return`).
-/

namespace WhaleLand.Dispatch

open Relation Transition

section Calls

variable {Handler Task : Type}

/-- The task is in a call of `dispatch`. -/
def Point.InDispatch : Point Handler → Prop
  | .idle | .registering _ .task | .enqueuing _ .task => False
  | _ => True

/-- Only these tasks are in calls of `dispatch`. -/
def DispatchedBy (D : Set Task) (s : State Handler Task) : Prop :=
  ∀ t, (s.point t).InDispatch → t ∈ D

theorem inDispatch_of_willRegister {point : Point Handler} (h : point.WillRegister) :
    point.InDispatch := by
  cases point with
  | idle => exact h
  | registering r caller | enqueuing r caller =>
    cases caller with
    | task => exact h
    | handler _ => trivial
  | updating _ | updatingMap _ | draining _ | looking _ | found _ _ | handling _ _ _ => trivial

theorem inDispatch_of_readsMap {point : Point Handler} (h : point.ReadsMap) :
    point.InDispatch := by
  cases point with
  | idle => exact h
  | registering r caller | enqueuing r caller =>
    cases caller with
    | task => exact h
    | handler _ => trivial
  | updating _ | updatingMap _ | draining _ | looking _ | found _ _ | handling _ _ _ => trivial

variable [DecidableEq Task]

/-- A step of some task; `dispatch` is called by the given tasks only. -/
def StepWith (D : Set Task) (s s' : State Handler Task) : Prop :=
  ∃ t action, Step t action s s' ∧ ∀ packet, action = .dispatch packet → t ∈ D

/-- A step that is no call of `dispatch`. -/
theorem StepWith.of_other {D : Set Task} {s s' : State Handler Task} {t : Task}
    {action : Action Handler} (h : Step t action s s')
    (hother : ∀ packet, action ≠ .dispatch packet) : StepWith D s s' :=
  ⟨t, action, h, fun packet heq => absurd heq (hother packet)⟩

/-- A task gets into `dispatch` by calling it. -/
theorem inDispatch_of_step {s s' : State Handler Task} {t : Task} {action : Action Handler}
    (h : Step t action s s') (hin : (s'.point t).InDispatch) :
    (s.point t).InDispatch ∨ ∃ packet, action = .dispatch packet := by
  have hself : ∀ point, (s.goto t point).point t = point := goto_point_self s t
  cases h with
  | dispatch packet _ => exact .inr ⟨packet, rfl⟩
  | register _ _ | noHandler _ | finish _ =>
    rw [hself] at hin
    exact hin.elim
  | @lockQueue _ r caller ht _ =>
    rw [hself] at hin
    rw [ht]
    cases caller with
    | task => exact hin.elim
    | handler later => exact .inl trivial
  | @enqueue _ r caller ht =>
    rw [ht]
    cases caller with
    | task =>
      have hidle : ((s.goto t .idle).point t).InDispatch := hin
      rw [hself] at hidle
      exact hidle.elim
    | handler later => exact .inl trivial
  | lockQueueForUpdate ht _ | lockMap ht _ | drain ht | readMap ht _ | invoke _ ht
  | handlerRegister ht =>
    rw [ht]
    exact .inl trivial

theorem dispatchedBy_step {D : Set Task} {s s' : State Handler Task} {t : Task}
    {action : Action Handler} (hs : DispatchedBy D s) (h : Step t action s s')
    (hD : ∀ packet, action = .dispatch packet → t ∈ D) : DispatchedBy D s' := by
  intro u hin
  by_cases hut : u = t
  · subst hut
    rcases inDispatch_of_step h hin with hin | ⟨packet, hcall⟩
    · exact hs u hin
    · exact hD packet hcall
  · rw [point_of_ne h hut] at hin
    exact hs u hin

end Calls

/-! ## One dispatcher is careful -/

section Careful

variable {Handler Task : Type} [DecidableEq Task] {D : Set Task}

/-- A task that is in `dispatch` but not in an event handler is the only one
that could be in an event handler. -/
theorem careful_of_subsingleton (hD : D.Subsingleton) {s s' : State Handler Task} {t : Task}
    {action : Action Handler} (hs : DispatchedBy D s) (h : Step t action s s') :
    Careful s action := by
  cases h with
  | register _ _ | lockQueue _ _ | enqueue _ | dispatch _ _ | lockMap _ _ | drain _ | readMap _ _
  | noHandler _ | handlerRegister _ | finish _ => trivial
  | lockQueueForUpdate ht _ =>
    intro u hwill
    obtain rfl : u = t :=
      hD (hs u (inDispatch_of_willRegister hwill)) (hs t (by rw [ht]; trivial))
    rw [ht] at hwill
    exact hwill
  | invoke calls ht =>
    intro _ u packet hu
    obtain rfl : u = t := hD (hs u (by rw [hu]; trivial)) (hs t (by rw [ht]; trivial))
    rw [ht] at hu
    cases hu

theorem invariants_of_run (hD : D.Subsingleton) {s : State Handler Task}
    (hrun : ReflTransGen (StepWith D) (State.init Handler Task) s) :
    Apart s ∧ DispatchedBy D s := by
  induction hrun with
  | refl => exact ⟨apart_init, fun _ h => h.elim⟩
  | tail _ hlast ih =>
    obtain ⟨hapart, hby⟩ := ih
    obtain ⟨t, action, hstep, hcall⟩ := hlast
    exact ⟨apart_step hapart hstep (careful_of_subsingleton hD hby hstep),
      dispatchedBy_step hby hstep hcall⟩

end Careful

/-! ## Two dispatchers can deadlock -/

section TwoDispatchers

variable {Handler Task : Type}

/-- Everybody else is idle. -/
def Alone (t : Task) (s : State Handler Task) : Prop := ∀ u, u ≠ t → s.point u = .idle

theorem Alone.forall {t : Task} {s : State Handler Task} (hs : Alone t s)
    {P : Point Handler → Prop} (hidle : P .idle) (ht : P (s.point t)) : ∀ u, P (s.point u) := by
  intro u
  by_cases hut : u = t
  · exact hut ▸ ht
  · rw [hs u hut]
    exact hidle

variable [DecidableEq Task]

theorem Alone.goto {t : Task} {s : State Handler Task} (hs : Alone t s) (point : Point Handler) :
    Alone t (s.goto t point) :=
  fun u hne => (goto_point_of_ne s point hne).trans (hs u hne)

omit [DecidableEq Task] in
theorem Alone.queueFree {t : Task} {s : State Handler Task} (hs : Alone t s)
    (ht : ¬ (s.point t).WritesQueue) : s.QueueFree :=
  hs.forall (P := fun point => ¬ point.WritesQueue) id ht

variable {D : Set Task} {t : Task} {s : State Handler Task}

/-- A registration from call to return, with everybody else idle. -/
theorem exists_registered (hs : Alone t s) (hidle : s.point t = .idle)
    (r : Registration Handler) :
    ∃ s', ReflTransGen (StepWith D) s s' ∧ Alone t s' ∧ s'.point t = .idle ∧
      s'.queue = s.queue.insert r.objectId r.operation ∧ s'.handlers = s.handlers := by
  let s₁ := s.goto t (.registering r .task)
  have h₁ : s₁.point t = .registering r .task := goto_point_self ..
  have hfree : s₁.QueueFree := (hs.goto _).queueFree (by rw [h₁]; exact id)
  let s₂ := s₁.goto t (.enqueuing r .task)
  have hrun : ReflTransGen (StepWith D) s s₁ := .single (.of_other (.register r hidle) (by simp))
  have hrun : ReflTransGen (StepWith D) s s₂ :=
    hrun.tail (.of_other (.lockQueue h₁ hfree) (by simp))
  have halone : Alone t (s₂.goto t .idle) := ((hs.goto _).goto _).goto _
  exact ⟨_, hrun.tail (.of_other (.enqueue (goto_point_self ..)) (by simp)), halone,
    goto_point_self .., rfl, rfl⟩

/-- A `dispatch` up to the lookup, with everybody else idle. -/
theorem exists_found (ht : t ∈ D) (hs : Alone t s) (hidle : s.point t = .idle)
    (packet : Packet) :
    ∃ s', ReflTransGen (StepWith D) s s' ∧ Alone t s' ∧ s'.point t = .found packet
      (updateEventHandlerRegistrations s.queue s.handlers)[packet.objectId]? := by
  have hcall : ∀ packet', (.dispatch packet : Action Handler) = .dispatch packet' → t ∈ D :=
    fun _ _ => ht
  let s₁ := s.goto t (.updating packet)
  have h₁ : s₁.point t = .updating packet := goto_point_self ..
  have hfree : s₁.QueueFree := (hs.goto _).queueFree (by rw [h₁]; exact id)
  let s₂ := s₁.goto t (.updatingMap packet)
  have h₂ : s₂.point t = .updatingMap packet := goto_point_self ..
  have halone₂ : Alone t s₂ := (hs.goto _).goto _
  have hmap : s₂.MapFree :=
    ⟨halone₂.forall (P := fun point => ¬ point.WritesMap) id (by rw [h₂]; exact id),
      halone₂.forall (P := fun point => ¬ point.ReadsMap) id (by rw [h₂]; exact id)⟩
  let s₃ := s₂.goto t (.draining packet)
  let s₄ : State Handler Task :=
    { s₃.goto t (.looking packet) with
      queue := ∅, handlers := updateEventHandlerRegistrations s.queue s.handlers }
  have h₄ : s₄.point t = .looking packet := goto_point_self ..
  have halone₄ : Alone t s₄ := Alone.goto (s := s₃) (halone₂.goto _) (.looking packet)
  have hreadable : s₄.MapReadable :=
    halone₄.forall (P := fun point => ¬ point.WritesMap) id (by rw [h₄]; exact id)
  have hrun : ReflTransGen (StepWith D) s s₁ := .single ⟨t, _, .dispatch packet hidle, hcall⟩
  have hrun : ReflTransGen (StepWith D) s s₂ :=
    hrun.tail (.of_other (.lockQueueForUpdate h₁ hfree) (by simp))
  have hrun : ReflTransGen (StepWith D) s s₃ := hrun.tail (.of_other (.lockMap h₂ hmap) (by simp))
  have hrun : ReflTransGen (StepWith D) s s₄ :=
    hrun.tail (.of_other (.drain (goto_point_self ..)) (by simp))
  exact ⟨_, hrun.tail (.of_other (.readMap h₄ hreadable) (by simp)), halone₄.goto _,
    goto_point_self ..⟩

/-- The event handler of one dispatcher is about to register, when another one
takes the queue for its update. -/
theorem exists_deadlocked {u : Task} (ht : t ∈ D) (hu : u ∈ D) (hne : u ≠ t)
    (eventHandler : Handler) :
    ∃ s : State Handler Task, ReflTransGen (StepWith D) (State.init Handler Task) s ∧
      s.Deadlocked := by
  let packet : Packet := Packet.new .display 0
  let r : Registration Handler := registerHandler packet.objectId eventHandler
  obtain ⟨s₁, hrun₁, halone₁, hidle₁, hqueue, hhandlers⟩ :=
    exists_registered (D := D) (t := t) (s := State.init Handler Task) (fun _ _ => rfl) rfl r
  obtain ⟨s₂, hrun₂, halone₂, hfound⟩ := exists_found ht halone₁ hidle₁ packet
  have hlookup : (updateEventHandlerRegistrations s₁.queue s₁.handlers)[packet.objectId]? =
      some eventHandler := by
    refine (congrFun (getElem?_updateEventHandlerRegistrations _ _) _).trans ?_
    rw [hqueue]
    simp [Overlay.overlay, r, registerHandler, EventHandlerOperation.eventHandler]
  rw [hlookup] at hfound
  let handling : Point Handler := .handling eventHandler packet [r]
  let s₃ := s₂.goto t handling
  have h₃ : s₃.point t = handling := goto_point_self ..
  have halone₃ : Alone t s₃ := halone₂.goto _
  let s₄ := s₃.goto u (.updating packet)
  have h₄ : s₄.point t = handling := (goto_point_of_ne s₃ _ hne.symm).trans h₃
  have hfree : s₄.QueueFree := by
    intro v hv
    by_cases hvu : v = u
    · subst hvu
      rw [show s₄.point v = .updating packet from goto_point_self ..] at hv
      exact hv
    · rw [show s₄.point v = s₃.point v from goto_point_of_ne s₃ _ hvu] at hv
      exact halone₃.queueFree (by rw [h₃]; exact id) v hv
  let s₅ := s₄.goto u (.updatingMap packet)
  have h₅ : s₅.point t = handling := (goto_point_of_ne s₄ _ hne.symm).trans h₄
  let s₆ := s₅.goto t (.registering r (.handler eventHandler packet []))
  have hcall : ∀ packet', (.dispatch packet : Action Handler) = .dispatch packet' → u ∈ D :=
    fun _ _ => hu
  have hrun := hrun₁.trans hrun₂
  have hrun : ReflTransGen (StepWith D) _ s₃ := hrun.tail (.of_other (.invoke [r] hfound) (by simp))
  have hrun : ReflTransGen (StepWith D) _ s₄ :=
    hrun.tail ⟨u, _, .dispatch packet (halone₃ u hne), hcall⟩
  have hrun : ReflTransGen (StepWith D) _ s₅ :=
    hrun.tail (.of_other (.lockQueueForUpdate (goto_point_self ..) hfree) (by simp))
  have hrun : ReflTransGen (StepWith D) _ s₆ :=
    hrun.tail (.of_other (.handlerRegister h₅) (by simp))
  have h₆ : s₆.point u = .updatingMap packet :=
    (goto_point_of_ne s₅ _ hne).trans (goto_point_self ..)
  exact ⟨s₆, hrun, deadlocked_of_meeting h₆ (goto_point_self ..)⟩

/-- If the tasks of `D` may call `dispatch`, and every task and event handler
may register, then no deadlock can be reached exactly when `D` has at most one
member. -/
theorem no_deadlock_iff_subsingleton [Nonempty Handler] (D : Set Task) :
    (∀ s : State Handler Task, ReflTransGen (StepWith D) (State.init Handler Task) s →
      ¬ s.Deadlocked) ↔ D.Subsingleton := by
  constructor
  · intro h t ht u hu
    by_contra hne
    obtain ⟨eventHandler⟩ := ‹Nonempty Handler›
    obtain ⟨s, hrun, hdead⟩ := exists_deadlocked ht hu (Ne.symm hne) eventHandler
    exact h s hrun hdead
  · intro hD s hrun
    exact not_deadlocked_of_apart (invariants_of_run hD hrun).1

end TwoDispatchers

/-- Two tasks that both call `dispatch` can deadlock. -/
theorem no_deadlock_iff_subsingleton_two :
    ¬ ∀ s : State Unit Bool, ReflTransGen (StepWith Set.univ) (State.init Unit Bool) s →
      ¬ s.Deadlocked := by
  rw [no_deadlock_iff_subsingleton]
  intro h
  cases h (Set.mem_univ true) (Set.mem_univ false)

/-! ## Every call returns -/

section Returns

variable {Handler Task : Type}

/-- The step is a task's call, not a step of a call. -/
def Action.IsCall : Action Handler → Prop
  | .register _ | .dispatch _ => True
  | _ => False

/-- How far a `dispatch` is from the event handler, which makes registrations
of a number that is not known before. -/
def Point.untilHandler : Point Handler → Nat
  | .updating _ => 5
  | .updatingMap _ => 4
  | .draining _ => 3
  | .looking _ => 2
  | .found _ _ => 1
  | .idle | .registering _ _ | .enqueuing _ _ | .handling _ _ _ => 0

/-- How many steps a registration or an event handler has still to make. -/
def Point.untilReturn : Point Handler → Nat
  | .handling _ _ calls => 3 * calls.length + 1
  | .registering _ (.handler _ _ later) => 3 * later.length + 3
  | .enqueuing _ (.handler _ _ later) => 3 * later.length + 2
  | .registering _ .task => 2
  | .enqueuing _ .task => 1
  | .idle | .updating _ | .updatingMap _ | .draining _ | .looking _ | .found _ _ => 0

/-- Nobody is in a call. -/
def AllIdle (s : State Handler Task) : Prop := ∀ t, s.point t = .idle

variable [DecidableEq Task]

/-- A step of a call that has been made. -/
def CallStep (s s' : State Handler Task) : Prop :=
  ∃ t action, Step t action s s' ∧ ¬ action.IsCall

/-- Every step brings its call nearer to the event handler, or, on the same
distance from it, to its return. -/
theorem nearer_of_step {s s' : State Handler Task} {t : Task} {action : Action Handler}
    (h : Step t action s s') (hcall : ¬ action.IsCall) :
    (s'.point t).untilHandler < (s.point t).untilHandler ∨
    ((s'.point t).untilHandler = (s.point t).untilHandler ∧
      (s'.point t).untilReturn < (s.point t).untilReturn) := by
  have hself : ∀ point, (s.goto t point).point t = point := goto_point_self s t
  cases h with
  | register _ _ | dispatch _ _ => exact absurd trivial hcall
  | lockQueueForUpdate ht _ | lockMap ht _ | readMap ht _ | invoke _ ht | noHandler ht =>
    rw [hself, ht]
    exact .inl (by simp [Point.untilHandler])
  | drain ht =>
    rw [ht]
    show (State.point (s.goto t _) t).untilHandler < _ ∨ _
    rw [hself]
    exact .inl (by simp [Point.untilHandler])
  | @lockQueue _ r caller ht _ =>
    rw [hself, ht]
    cases caller with
    | task | handler _ _ _ => exact .inr ⟨rfl, by simp [Point.untilReturn]⟩
  | @enqueue _ r caller ht =>
    rw [ht]
    have hpoint : ({ s.goto t caller.resume with
        queue := s.queue.insert r.objectId r.operation } : State Handler Task).point t =
          caller.resume := hself _
    rw [hpoint]
    cases caller with
    | task | handler _ _ _ => exact .inr ⟨rfl, by simp [Caller.resume, Point.untilReturn]⟩
  | handlerRegister ht | finish ht =>
    rw [hself, ht]
    exact .inr ⟨rfl, by simp [Point.untilReturn, Nat.mul_add]⟩

variable {D : Set Task}

/-- As long as some call has not returned, some call can go on. -/
theorem exists_callStep (hD : D.Subsingleton) {s : State Handler Task} (hs : s.Exclusive)
    (hby : DispatchedBy D s) (hbusy : ¬ AllIdle s) : ∃ s', CallStep s s' := by
  by_cases hfree : s.QueueFree
  · obtain ⟨t, ht⟩ := Classical.not_forall.mp hbusy
    have hreadable : s.MapReadable := fun u hu => hfree u (writesQueue_of_writesMap hu)
    cases hpoint : s.point t with
    | idle => exact absurd hpoint ht
    | registering r caller => exact ⟨_, t, _, .lockQueue hpoint hfree, id⟩
    | updating packet => exact ⟨_, t, _, .lockQueueForUpdate hpoint hfree, id⟩
    | looking packet => exact ⟨_, t, _, .readMap hpoint hreadable, id⟩
    | found packet eventHandler =>
      cases eventHandler with
      | none => exact ⟨_, t, _, .noHandler hpoint, id⟩
      | some eventHandler => exact ⟨_, t, _, .invoke [] hpoint, id⟩
    | handling _ _ calls =>
      cases calls with
      | nil => exact ⟨_, t, .finish (.ok ()), .finish hpoint, id⟩
      | cons r calls => exact ⟨_, t, _, .handlerRegister hpoint, id⟩
    | enqueuing _ _ | updatingMap _ | draining _ =>
      exact absurd (by rw [hpoint]; trivial) (hfree t)
  · -- the task that has the queue can go on
    obtain ⟨t, hwrites⟩ := Classical.not_forall_not.mp hfree
    cases hpoint : s.point t with
    | enqueuing r caller => exact ⟨_, t, _, .enqueue hpoint, id⟩
    | draining packet => exact ⟨_, t, _, .drain hpoint, id⟩
    | updatingMap packet =>
      have hmap : s.MapFree := by
        constructor
        · intro u hu
          obtain rfl : u = t := hs u t (writesQueue_of_writesMap hu) hwrites
          rw [hpoint] at hu
          exact hu
        · intro u hu
          obtain rfl : u = t :=
            hD (hby u (inDispatch_of_readsMap hu)) (hby t (by rw [hpoint]; trivial))
          rw [hpoint] at hu
          exact hu
      exact ⟨_, t, _, .lockMap hpoint hmap, id⟩
    | idle | registering _ _ | updating _ | looking _ | found _ _ | handling _ _ _ =>
      rw [hpoint] at hwrites
      exact hwrites.elim

/-- The distances of all tasks from their event handlers, and from their
returns. -/
def State.distances [Fintype Task] (s : State Handler Task) : Nat × Nat :=
  (∑ t, (s.point t).untilHandler, ∑ t, (s.point t).untilReturn)

theorem distances_of_step [Fintype Task] {s s' : State Handler Task} {t : Task}
    {action : Action Handler} (h : Step t action s s') (hcall : ¬ action.IsCall) :
    Prod.Lex (· < ·) (· < ·) s'.distances s.distances := by
  have hothers : ∀ u, u ≠ t → s'.point u = s.point u := fun u hne => point_of_ne h hne
  rcases nearer_of_step h hcall with hlt | ⟨heq, hlt⟩
  · refine Prod.Lex.left _ _ (Finset.sum_lt_sum (fun u _ => ?_) ⟨t, Finset.mem_univ t, hlt⟩)
    by_cases hut : u = t
    · exact hut ▸ hlt.le
    · rw [hothers u hut]
  · have hsame : ∑ u, (s'.point u).untilHandler = ∑ u, (s.point u).untilHandler := by
      refine Finset.sum_congr rfl fun u _ => ?_
      by_cases hut : u = t
      · exact hut ▸ heq
      · rw [hothers u hut]
    rw [State.distances, State.distances, hsame]
    refine Prod.Lex.right _ (Finset.sum_lt_sum (fun u _ => ?_) ⟨t, Finset.mem_univ t, hlt⟩)
    by_cases hut : u = t
    · exact hut ▸ hlt.le
    · rw [hothers u hut]

/-- With one dispatcher, and finitely many tasks that register, every run that
follows the calls made so far comes to an end, and it ends with every call
returned: no lock is waited for in vain, however the locks are granted. -/
theorem all_calls_return [Fintype Task] (hD : D.Subsingleton) {s : State Handler Task}
    (hrun : ReflTransGen (StepWith D) (State.init Handler Task) s) :
    Inevitable CallStep AllIdle s := by
  have hends : ∀ {s : State Handler Task}, AllIdle s → Inevitable CallStep AllIdle s := by
    intro s hidle
    refine .of_end ?_ hidle
    rintro s' ⟨t, action, hstep, hcall⟩
    have hnearer := nearer_of_step hstep hcall
    rw [hidle t] at hnearer
    rcases hnearer with hlt | ⟨_, hlt⟩
    · exact absurd hlt (Nat.not_lt_zero _)
    · exact absurd hlt (Nat.not_lt_zero _)
  obtain ⟨hapart, hby⟩ := invariants_of_run hD hrun
  by_cases hidle : AllIdle s
  · exact hends hidle
  · refine .of_wellFounded (Prod.lex Nat.lt_wfRel Nat.lt_wfRel).wf
      (fun s => Apart s ∧ DispatchedBy D s ∧ ¬ AllIdle s) State.distances ?_ ?_
      ⟨hapart, hby, hidle⟩
    · rintro s ⟨hapart, hby, hbusy⟩
      exact exists_callStep hD hapart.exclusive hby hbusy
    · rintro s s' ⟨hapart, hby, _⟩ ⟨t, action, hstep, hcall⟩
      have hby' : DispatchedBy D s' :=
        dispatchedBy_step hby hstep (by rintro packet rfl; exact absurd trivial hcall)
      have hapart' := apart_step hapart hstep (careful_of_subsingleton hD hby hstep)
      by_cases hidle' : AllIdle s'
      · exact .inr (hends hidle')
      · exact .inl ⟨⟨hapart', hby', hidle'⟩, distances_of_step hstep hcall⟩

end Returns

/-- One of two tasks dispatches a packet for which it has registered an event
handler. -/
theorem all_calls_return_one :
    ∃ s : State Unit Bool, s.point true = .found somePacket (some ()) ∧
      Inevitable CallStep AllIdle s := by
  obtain ⟨s₁, hrun₁, halone₁, hidle₁, hqueue, _⟩ := exists_registered (D := {true}) (t := true)
    (s := State.init Unit Bool) (fun _ _ => rfl) rfl someRegistration
  obtain ⟨s₂, hrun₂, _, hfound⟩ := exists_found (D := {true}) rfl halone₁ hidle₁ somePacket
  refine ⟨s₂, ?_, all_calls_return Set.subsingleton_singleton (hrun₁.trans hrun₂)⟩
  rw [hfound]
  refine congrArg (Point.found somePacket)
    ((congrFun (getElem?_updateEventHandlerRegistrations _ _) _).trans ?_)
  rw [hqueue]
  simp [Overlay.overlay, someRegistration, somePacket, registerHandler, Packet.new,
    EventHandlerOperation.eventHandler]

end WhaleLand.Dispatch
