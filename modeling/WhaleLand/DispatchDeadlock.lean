import WhaleLand.Dispatch
import WhaleLand.Lib.Deadlock

/-!
# Deadlocks between dispatchers and registrations

An event handler that registers takes the locks in the order map, queue;
`update_event_handler_registrations` takes them in the order queue, map. Either
order alone is fine. Together they deadlock as soon as one task holds the queue
for its update while the handler of another has a registration to make, and
only then (`no_deadlock_of_careful`).
-/

namespace WhaleLand.Dispatch

open Relation

section Deadlocks

variable {Handler Task : Type}

/-- Who waits for which lock, and who holds which. -/
def State.waitGraph (s : State Handler Task) : Deadlock.WaitGraph Task Lock where
  waits t l := (s.point t).awaited = some l
  holds t l := (s.point t).Holds l

/-- A non-empty set of tasks each of which waits for a lock held by a member. -/
def State.Deadlocked (s : State Handler Task) : Prop := s.waitGraph.Deadlocked

/-- The task is in an event handler that has registrations to make, the one it
is waiting for included. -/
def Point.WillRegister : Point Handler → Prop
  | .handling _ _ (_ :: _) => True
  | .registering _ (.handler _ _ _) => True
  | .enqueuing _ (.handler _ _ (_ :: _)) => True
  | _ => False

/-- What makes a step careful: `dispatch` takes the queue for its update only
while no event handler has registrations to make, and it runs an event handler
that makes any only while no other `dispatch` has the queue and waits for the
map. -/
def Careful (s : State Handler Task) : Action Handler → Prop
  | .lockQueueForUpdate => ∀ u, ¬ (s.point u).WillRegister
  | .invoke _ _ calls => calls ≠ [] → ∀ u packet, s.point u ≠ .updatingMap packet
  | _ => True

/-- The two orders do not meet. -/
structure Apart (s : State Handler Task) : Prop where
  exclusive : ∀ t u, (s.point t).WritesQueue → (s.point u).WritesQueue → t = u
  apart : ∀ t u packet, (s.point t).WillRegister → s.point u ≠ .updatingMap packet

/-! ## States where the orders do not meet -/

theorem apart_init : Apart (State.init Handler Task) where
  exclusive := exclusive_init
  apart _ _ _ h := h.elim

/-- The locks and calls of a state do not depend on its maps. -/
theorem apart_of_point {s s' : State Handler Task} (h : s'.point = s.point) (hs : Apart s) :
    Apart s' := by
  obtain ⟨point, _, _⟩ := s
  obtain ⟨point', _, _⟩ := s'
  obtain rfl : point' = point := h
  exact ⟨hs.exclusive, hs.apart⟩

/-- The lock order with the given lock at the bottom. -/
def Lock.rank (lowest l : Lock) : Nat := if l = lowest then 0 else 1

/-- A task that holds one lock and waits for another is in the update of a
`dispatch`, or in an event handler. -/
theorem holds_and_awaits {point : Point Handler} {l l' : Lock} (hholds : point.Holds l)
    (hawaits : point.awaited = some l') :
    (l = .queuedEventHandlerOperations ∧ l' = .objectIdToEventHandler ∧
      ∃ packet, point = .updatingMap packet) ∨
    (l = .objectIdToEventHandler ∧ l' = .queuedEventHandlerOperations ∧ point.WillRegister) := by
  cases point with
  | idle | enqueuing _ _ | draining _ | found _ _ | handling _ _ _ => cases hawaits
  | updating packet =>
    cases l with
    | queuedEventHandlerOperations => exact hholds.elim
    | objectIdToEventHandler => exact hholds.elim False.elim False.elim
  | looking packet =>
    cases l with
    | queuedEventHandlerOperations => exact hholds.elim
    | objectIdToEventHandler => exact hholds.elim False.elim False.elim
  | updatingMap packet =>
    cases hawaits
    cases l with
    | queuedEventHandlerOperations => exact .inl ⟨rfl, rfl, packet, rfl⟩
    | objectIdToEventHandler => exact hholds.elim False.elim False.elim
  | registering r caller =>
    cases hawaits
    cases l with
    | queuedEventHandlerOperations => exact hholds.elim
    | objectIdToEventHandler =>
      cases caller with
      | task => exact hholds.elim False.elim False.elim
      | handler _ _ later => exact .inr ⟨rfl, rfl, trivial⟩

/-- While the queue is held for an update it ranks below the map, otherwise
above. -/
theorem not_deadlocked_of_apart {s : State Handler Task} (hs : Apart s) : ¬ s.Deadlocked := by
  have hbound : ∀ lowest l, Lock.rank lowest l ≤ 1 := by
    rintro (_ | _) (_ | _) <;> decide
  by_cases hupdate : ∃ u packet, s.point u = .updatingMap packet
  -- no event handler will register, so nobody waits for the queue with the map in hand
  · obtain ⟨u, packet, hu⟩ := hupdate
    refine Deadlock.WaitGraph.not_deadlocked_of_ordered
      (hbound .queuedEventHandlerOperations) fun t l l' hholds hawaits => ?_
    rcases holds_and_awaits hholds hawaits with ⟨rfl, rfl, _⟩ | ⟨_, _, hwill⟩
    · decide
    · exact absurd hu (hs.apart t u packet hwill)
  · refine Deadlock.WaitGraph.not_deadlocked_of_ordered
      (hbound .objectIdToEventHandler) fun t l l' hholds hawaits => ?_
    rcases holds_and_awaits hholds hawaits with ⟨_, _, packet, ht⟩ | ⟨rfl, rfl, _⟩
    · exact absurd ⟨t, packet, ht⟩ hupdate
    · decide

/-- Two tasks that wait for each other. -/
theorem deadlocked_of_meeting {s : State Handler Task} {t u : Task} {packet packet' : Packet}
    {r : Registration Handler} {eventHandler : Handler} {later : List (Registration Handler)}
    (ht : s.point t = .updatingMap packet)
    (hu : s.point u = .registering r (.handler eventHandler packet' later)) :
    s.Deadlocked := by
  refine Deadlock.WaitGraph.deadlocked_of_cycle (t := u) (u := t)
    (l := .queuedEventHandlerOperations) (m := .objectIdToEventHandler) ?_ ?_ ?_ ?_
  · show (s.point u).awaited = _
    rw [hu]
    rfl
  · show (s.point t).WritesQueue
    rw [ht]
    trivial
  · show (s.point t).awaited = _
    rw [ht]
    rfl
  · show (s.point u).WritesMap ∨ (s.point u).ReadsMap
    rw [hu]
    exact .inr trivial

/-! ## Careful runs -/

variable [DecidableEq Task]

/-- Which points a task can be moved to without the orders meeting. -/
theorem apart_goto {s : State Handler Task} (hs : Apart s) {t : Task} {point : Point Handler}
    (hwrites : point.WritesQueue → (s.point t).WritesQueue ∨ s.QueueFree)
    (hwill : point.WillRegister →
      (s.point t).WillRegister ∨ ∀ u packet, s.point u ≠ .updatingMap packet)
    (hupdate : ∀ packet, point = .updatingMap packet → ∀ u, ¬ (s.point u).WillRegister) :
    Apart (s.goto t point) := by
  refine ⟨exclusive_goto hs.exclusive hwrites, ?_⟩
  intro u v packet hu hv
  -- pairs of other tasks are as they were
  by_cases hut : u = t <;> by_cases hvt : v = t
  · subst hut hvt
    rw [goto_point_self] at hu hv
    rw [hv] at hu
    exact hu
  · subst hut
    rw [goto_point_self] at hu
    rw [goto_point_of_ne s point hvt] at hv
    rcases hwill hu with ht | hnone
    · exact hs.apart u v packet ht hv
    · exact hnone v packet hv
  · subst hvt
    rw [goto_point_self] at hv
    rw [goto_point_of_ne s point hut] at hu
    exact hupdate packet hv u hu
  · rw [goto_point_of_ne s point hut] at hu
    rw [goto_point_of_ne s point hvt] at hv
    exact hs.apart u v packet hu hv

/-- A careful step keeps the orders apart. -/
theorem apart_step {s s' : State Handler Task} {t : Task} {action : Action Handler}
    (hs : Apart s) (h : Step t action s s') (hcareful : Careful s action) : Apart s' := by
  cases h with
  | register _ _ | dispatch _ _ => exact apart_goto hs False.elim False.elim nofun
  | readMap _ _ | noHandler _ | finish _ => exact apart_goto hs False.elim False.elim nofun
  | @drain _ packet _ =>
    exact apart_of_point (s := s.goto t (.looking packet)) rfl
      (apart_goto hs False.elim False.elim nofun)
  | @lockQueue _ r caller ht hfree =>
    refine apart_goto hs (fun _ => .inr hfree) (fun hwill => .inl ?_) nofun
    rw [ht]
    cases caller with
    | task => exact hwill.elim
    | handler _ _ later => trivial
  | @enqueue _ r caller ht =>
    refine apart_of_point (s := s.goto t caller.resume) rfl ?_
    cases caller with
    | task => exact apart_goto hs False.elim False.elim nofun
    | handler _ _ later =>
      refine apart_goto hs False.elim (fun hwill => .inl ?_) nofun
      rw [ht]
      cases later with
      | nil => exact hwill.elim
      | cons r later => trivial
  -- the two steps that could let the orders meet are this one and `invoke`
  | lockQueueForUpdate _ hfree =>
    refine apart_goto hs (fun _ => .inr hfree) False.elim ?_
    intro packet _ u
    exact hcareful u
  | lockMap ht _ =>
    refine apart_goto hs (fun _ => .inl ?_) False.elim nofun
    rw [ht]
    trivial
  | invoke calls ht =>
    refine apart_goto hs False.elim (fun hwill => .inr (hcareful ?_)) nofun
    rintro rfl
    exact hwill
  | handlerRegister ht =>
    refine apart_goto hs False.elim (fun _ => .inl ?_) nofun
    rw [ht]
    trivial

/-- A step of some task that is careful. -/
def CarefulStep (s s' : State Handler Task) : Prop :=
  ∃ t action, Step t action s s' ∧ Careful s action

theorem CarefulStep.anyStep {s s' : State Handler Task} (h : CarefulStep s s') : AnyStep s s' := by
  obtain ⟨t, action, hstep, _⟩ := h
  exact ⟨t, action, hstep⟩

theorem apart_run {s : State Handler Task}
    (hrun : ReflTransGen CarefulStep (State.init Handler Task) s) : Apart s := by
  induction hrun with
  | refl => exact apart_init
  | tail _ hlast ih =>
    obtain ⟨t, action, hstep, hcareful⟩ := hlast
    exact apart_step ih hstep hcareful

/-! ## Steps that are not careful -/

/-- Once the orders meet, the event handler's next registration completes the
deadlock. -/
theorem exists_deadlock_of_meeting {s : State Handler Task} {t u : Task} {packet : Packet}
    (ht : s.point t = .updatingMap packet) (hu : (s.point u).WillRegister)
    (hwrites : ¬ (s.point u).WritesQueue) :
    ∃ s', ReflTransGen AnyStep s s' ∧ s'.Deadlocked := by
  have hne : t ≠ u := by
    rintro rfl
    rw [ht] at hu
    exact hu
  cases hpoint : s.point u with
  | idle | updating _ | updatingMap _ | draining _ | looking _ | found _ _ =>
    rw [hpoint] at hu
    exact hu.elim
  | registering r caller =>
    rw [hpoint] at hu
    cases caller with
    | task => exact hu.elim
    | handler _ _ later => exact ⟨s, .refl, deadlocked_of_meeting ht hpoint⟩
  | enqueuing r caller =>
    rw [hpoint] at hwrites
    exact absurd trivial hwrites
  | handling eventHandler packet' calls =>
    rw [hpoint] at hu
    cases calls with
    | nil => exact hu.elim
    | cons r later =>
      let point : Point Handler := .registering r (.handler eventHandler packet' later)
      have ht' : (s.goto u point).point t = .updatingMap packet :=
        (goto_point_of_ne s _ hne).trans ht
      exact ⟨_, .single ⟨u, _, .handlerRegister hpoint⟩,
        deadlocked_of_meeting ht' (goto_point_self ..)⟩

/-- A step that is not careful lets the orders meet. -/
theorem exists_deadlock_of_not_careful {s s' : State Handler Task} {t : Task}
    {action : Action Handler} (h : Step t action s s') (hcareful : ¬ Careful s action) :
    ∃ s'', ReflTransGen AnyStep s' s'' ∧ s''.Deadlocked := by
  cases h with
  | register _ _ | lockQueue _ _ | enqueue _ | dispatch _ _ | lockMap _ _ | drain _ | readMap _ _
  | noHandler _ | handlerRegister _ | finish _ => exact absurd trivial hcareful
  | @lockQueueForUpdate _ packet ht hfree =>
    simp only [Careful, not_forall, not_not] at hcareful
    obtain ⟨u, hu⟩ := hcareful
    have hne : u ≠ t := by
      rintro rfl
      rw [ht] at hu
      exact hu
    have hother : (s.goto t (.updatingMap packet)).point u = s.point u :=
      Function.update_of_ne hne ..
    refine exists_deadlock_of_meeting (t := t) (u := u) (Function.update_self ..) ?_ ?_
    · rwa [hother]
    · rw [hother]
      exact hfree u
  | @invoke _ packet eventHandler calls ht =>
    simp only [Careful, Classical.not_imp, not_forall, not_not] at hcareful
    obtain ⟨hcalls, u, packet', hu⟩ := hcareful
    have hne : u ≠ t := by
      rintro rfl
      rw [ht] at hu
      cases hu
    let point : Point Handler := .handling eventHandler packet calls
    have hself : (s.goto t point).point t = point := goto_point_self ..
    have hu' : (s.goto t point).point u = .updatingMap packet' :=
      (goto_point_of_ne s _ hne).trans hu
    refine exists_deadlock_of_meeting (u := t) hu' ?_ ?_
    · rw [hself]
      cases calls with
      | nil => exact absurd rfl hcalls
      | cons r calls => trivial
    · rw [hself]
      exact id

/-- In a run whose steps are all careful no deadlock is reached; from any step
that is not careful, one can be. -/
theorem no_deadlock_of_careful {s : State Handler Task}
    (hrun : ReflTransGen CarefulStep (State.init Handler Task) s) :
    ¬ s.Deadlocked ∧
      ∀ t action s', Step t action s s' → ¬ Careful s action →
        ∃ s'', ReflTransGen AnyStep s' s'' ∧ s''.Deadlocked :=
  ⟨not_deadlocked_of_apart (apart_run hrun), fun _ _ _ => exists_deadlock_of_not_careful⟩

/-- A writer cannot move while the lock it waits for is held. -/
theorem no_step_of_blocked {s s' : State Handler Task} {t u : Task} {action : Action Handler}
    {l : Lock} (ht : (s.point t).awaited = some l) (hlook : ∀ packet, s.point t ≠ .looking packet)
    (hu : (s.point u).Holds l) : ¬ Step t action s s' := by
  intro h
  cases h with
  | register _ hpoint | enqueue hpoint | dispatch _ hpoint | drain hpoint | invoke _ hpoint
  | noHandler hpoint | handlerRegister hpoint | finish hpoint =>
    rw [hpoint] at ht
    cases ht
  | lockQueue hpoint hfree =>
    rw [hpoint] at ht
    cases ht
    exact hfree u hu
  | lockQueueForUpdate hpoint hfree =>
    rw [hpoint] at ht
    cases ht
    exact hfree u hu
  | lockMap hpoint hfree =>
    rw [hpoint] at ht
    cases ht
    exact hu.elim (hfree.1 u) (hfree.2 u)
  | readMap hpoint _ => exact hlook _ hpoint

end Deadlocks

/-! ## Two dispatchers -/

/-- A task registers an event handler and dispatches a packet to it. The event
handler is about to register. -/
theorem exists_handler_running :
    ∃ s : State Unit Bool, ReflTransGen CarefulStep (State.init Unit Bool) s ∧
      s.point true = .handling () somePacket [someRegistration] ∧ s.point false = .idle := by
  have hrun : ReflTransGen CarefulStep (State.init Unit Bool) _ := .refl
  have hrun := hrun.tail ⟨true, _, .register someRegistration rfl, trivial⟩
  have hrun := hrun.tail ⟨true, _, .lockQueue rfl (queueFree_of_both id id), trivial⟩
  have hrun := hrun.tail ⟨true, _, .enqueue rfl, trivial⟩
  have hrun := hrun.tail ⟨true, _, .dispatch somePacket rfl, trivial⟩
  have hrun := hrun.tail ⟨true, _, .lockQueueForUpdate rfl (queueFree_of_both id id),
    by rintro (_ | _) h <;> exact h⟩
  have hrun := hrun.tail ⟨true, _,
    .lockMap rfl (mapFree_of_both (by rintro (_ | _) (h | h) <;> exact h)), trivial⟩
  have hrun := hrun.tail ⟨true, _, .drain rfl, trivial⟩
  have hrun := hrun.tail ⟨true, _, .readMap rfl (by rintro (_ | _) h <;> exact h), trivial⟩
  have hrun := hrun.tail ⟨true, _, .invoke [someRegistration]
    (show _ = Point.found somePacket (some ()) from rfl), by rintro _ (_ | _) _ h <;> cases h⟩
  exact ⟨_, hrun, rfl, rfl⟩

/-- Another task registers meanwhile and has the queue, for which the event
handler has to wait. -/
theorem no_deadlock_of_careful_two :
    ∃ s : State Unit Bool,
      s.point true = .registering someRegistration (.handler () somePacket []) ∧
      s.point false = .enqueuing someRegistration .task ∧ ¬ s.Deadlocked := by
  obtain ⟨s, hrun, htrue, hfalse⟩ := exists_handler_running
  have hfree : (s.goto false (.registering someRegistration .task)).QueueFree := by
    refine queueFree_of_both ?_ id
    show ¬ (s.point true).WritesQueue
    rw [htrue]
    exact id
  have hrun := hrun.tail ⟨false, _, .register someRegistration hfalse, trivial⟩
  have hrun := hrun.tail ⟨false, _, .lockQueue rfl hfree, trivial⟩
  have hrun := hrun.tail ⟨true, _, .handlerRegister htrue, trivial⟩
  exact ⟨_, rfl, rfl, (no_deadlock_of_careful hrun).1⟩

/-- While that event handler runs, another task dispatches and takes the queue
for its update. With the event handler's registration neither can go on. -/
theorem dispatchers_deadlock :
    ∃ s : State Unit Bool, ReflTransGen AnyStep (State.init Unit Bool) s ∧ s.Deadlocked ∧
      ∀ s', ¬ AnyStep s s' := by
  obtain ⟨s, hcareful, htrue, hfalse⟩ := exists_handler_running
  have hrun : ReflTransGen AnyStep (State.init Unit Bool) s :=
    ReflTransGen.mono (fun _ _ h => h.anyStep) _ _ hcareful
  have hfree : (s.goto false (.updating somePacket)).QueueFree := by
    refine queueFree_of_both ?_ id
    show ¬ (s.point true).WritesQueue
    rw [htrue]
    exact id
  have hrun := hrun.tail ⟨false, _, .dispatch somePacket hfalse⟩
  have hrun := hrun.tail ⟨false, _, .lockQueueForUpdate rfl hfree⟩
  have hrun := hrun.tail ⟨true, _, .handlerRegister htrue⟩
  refine ⟨_, hrun, deadlocked_of_meeting (t := false) (u := true) rfl rfl, ?_⟩
  rintro s' ⟨_ | _, action, h⟩
  · refine no_step_of_blocked (u := true) (l := .objectIdToEventHandler) rfl
      (fun _ hlook => by cases hlook) ?_ h
    exact .inr trivial
  · refine no_step_of_blocked (u := false) (l := .queuedEventHandlerOperations) rfl
      (fun _ hlook => by cases hlook) ?_ h
    exact trivial

end WhaleLand.Dispatch
