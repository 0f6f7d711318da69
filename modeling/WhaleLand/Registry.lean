import WhaleLand.Dispatch
import WhaleLand.Lib.Overlay

/-!
# The queued registry and a plain map

Registrations are queued, at most one for each object id, and every `dispatch`
moves the queue into the map of handlers, in the order of the ids. The plain
map that they stand for is the one that takes each registration at the moment
it gets the queue's write lock (`plainMap`). With neither lock write-held, the
queue laid over the map is that plain map, and a `dispatch` does what one on a
plain map does (`plainDispatch`) that held the registrations at a moment after
the call (`registry_refines_map`).
-/

namespace WhaleLand

instance : Std.TransOrd ObjectId :=
  inferInstanceAs (Std.TransCmp (compareOn ObjectId.val))

instance : Std.LawfulEqOrd ObjectId where
  eq_of_compare {a b} h := by
    have hval : a.val = b.val := Std.LawfulEqOrd.eq_of_compare h
    cases a
    cases b
    cases hval
    rfl

namespace Dispatch

open Relation Overlay
open Std (TreeMap)

/-! ## The plain map -/

section PlainMap

variable {Handler Task : Type}

/-- What an operation leaves at its object id. -/
def EventHandlerOperation.eventHandler : EventHandlerOperation Handler → Option Handler
  | .register eventHandler => some eventHandler
  | .unregister => none

/-- The plain map that takes the registrations of a log, in order. -/
def plainMap (log : List (Registration Handler)) : ObjectId → Option Handler :=
  replay EventHandlerOperation.eventHandler (log.map fun r => (r.objectId, r.operation))

/-- The queue laid over the map of handlers. -/
def State.registry (s : State Handler Task) : ObjectId → Option Handler :=
  overlay EventHandlerOperation.eventHandler (fun objectId => s.queue[objectId]?)
    fun objectId => s.handlers[objectId]?

/-- A state, and the registrations that have got the queue's write lock so far,
in that order. -/
structure Logged (Handler Task : Type) where
  state : State Handler Task
  log : List (Registration Handler)

def Logged.init (Handler Task : Type) : Logged Handler Task := ⟨.init Handler Task, []⟩

/-- Neither lock is write-held. -/
def Logged.Unlocked (x : Logged Handler Task) : Prop := x.state.QueueFree ∧ x.state.MapReadable

/-- The registration that gets the queue's write lock with a step. -/
def State.acquired (s : State Handler Task) (t : Task) :
    Action Handler → List (Registration Handler)
  | .lockQueue =>
    match s.point t with
    | .registering r _ => [r]
    | _ => []
  | _ => []

variable [DecidableEq Task]

/-- A step of a task, with the log kept. -/
def LoggedStep (t : Task) (action : Action Handler) (x x' : Logged Handler Task) : Prop :=
  Step t action x.state x'.state ∧ x'.log = x.log ++ x.state.acquired t action

/-- A step of some task. -/
def AnyLoggedStep (x x' : Logged Handler Task) : Prop := ∃ t action, LoggedStep t action x x'

/-- How the look-up of a `dispatch` ends: an event handler is invoked with a
packet, or the call returns. -/
inductive Outcome (Handler : Type)
  | invoked (eventHandler : Handler) (packet : Packet)
  | returned (result : Except Error Unit)

def Action.outcome : Action Handler → Option (Outcome Handler)
  | .invoke eventHandler packet _ => some (.invoked eventHandler packet)
  | .finish result => some (.returned result)
  | .register _ | .lockQueue | .enqueue | .dispatch _ | .lockQueueForUpdate | .lockMap | .drain
  | .readMap | .handlerRegister => none

/-- `dispatch` on a plain map: the packet goes to the handler of its object, or
there is none. -/
def plainDispatch (map : ObjectId → Option Handler) (packet : Packet) : Outcome Handler :=
  match map packet.objectId with
  | some eventHandler => .invoked eventHandler packet
  | none => .returned (.error (.noEventHandler packet.objectId))

/-- A step of some task that is not the outcome of a `dispatch` by `t`. -/
def PendingStep (t : Task) (x x' : Logged Handler Task) : Prop :=
  ∃ u action, LoggedStep u action x x' ∧ (u = t → action.outcome = none)

end PlainMap

/-! ## Queueing and draining -/

section Registry

variable {Handler Task : Type}

theorem plainMap_concat (log : List (Registration Handler)) (r : Registration Handler) :
    plainMap (log ++ [r]) =
      assign EventHandlerOperation.eventHandler (plainMap log) r.objectId r.operation := by
  rw [plainMap, List.map_append]
  exact replay_concat ..

theorem plainMap_of_last {before after : List (Registration Handler)} {r : Registration Handler}
    (hlast : ∀ r' ∈ after, r'.objectId ≠ r.objectId) :
    plainMap (before ++ r :: after) r.objectId = r.operation.eventHandler := by
  rw [plainMap, List.map_append, List.map_cons]
  refine replay_of_last _ ?_
  simpa only [List.forall_mem_map] using hlast

theorem compare_objectId (a b : ObjectId) : compare a b = .eq ↔ b = a :=
  Std.compare_eq_iff_eq.trans eq_comm

/-- An insertion into the queue is an update of the registry. -/
theorem registry_insert (s : State Handler Task) (r : Registration Handler) :
    State.registry { s with queue := s.queue.insert r.objectId r.operation } =
      assign EventHandlerOperation.eventHandler s.registry r.objectId r.operation := by
  have hqueue : (fun objectId => (s.queue.insert r.objectId r.operation)[objectId]?) =
      Function.update (fun objectId => s.queue[objectId]?) r.objectId (some r.operation) := by
    funext objectId
    simp only [TreeMap.getElem?_insert, Function.update_apply, compare_objectId]
  rw [State.registry, hqueue]
  exact overlay_record ..

/-- One turn of the loop is an update of the map. -/
theorem getElem?_applyOperation (map : TreeMap ObjectId Handler) (objectId : ObjectId)
    (operation : EventHandlerOperation Handler) :
    (fun k : ObjectId => (applyOperation map objectId operation)[k]?) =
      assign EventHandlerOperation.eventHandler (fun k => map[k]?) objectId operation := by
  funext k
  rw [assign, Function.update_apply]
  cases operation with
  | register eventHandler =>
    simp only [applyOperation, TreeMap.getElem?_insert, compare_objectId,
      EventHandlerOperation.eventHandler]
  | unregister =>
    simp only [applyOperation, TreeMap.getElem?_erase, compare_objectId,
      EventHandlerOperation.eventHandler]

/-- Draining moves what the queue lays over the map into the map. -/
theorem getElem?_updateEventHandlerRegistrations
    (queue : TreeMap ObjectId (EventHandlerOperation Handler)) (map : TreeMap ObjectId Handler) :
    (fun k : ObjectId => (updateEventHandlerRegistrations queue map)[k]?) =
      overlay EventHandlerOperation.eventHandler (fun k => queue[k]?) fun k => map[k]? := by
  have hfold : ∀ (entries : List (ObjectId × EventHandlerOperation Handler))
      (map : TreeMap ObjectId Handler),
      (fun k : ObjectId =>
        (entries.foldl (fun map entry => applyOperation map entry.1 entry.2) map)[k]?) =
        entries.foldl (fun map entry =>
          assign EventHandlerOperation.eventHandler map entry.1 entry.2) fun k => map[k]? := by
    intro entries
    induction entries with
    | nil => exact fun _ => rfl
    | cons entry entries ih =>
      intro map
      rw [List.foldl_cons, List.foldl_cons, ih, getElem?_applyOperation]
  have hnodup : (queue.toList.map Prod.fst).Nodup := by
    rw [List.nodup_iff_pairwise_ne, List.pairwise_map]
    refine TreeMap.distinct_keys_toList.imp fun hne heq => hne ?_
    rw [heq]
    exact Std.compare_self
  rw [updateEventHandlerRegistrations, TreeMap.foldl_eq_foldl_toList, hfold]
  exact drain_eq_overlay _ _ hnodup fun _ _ => TreeMap.mem_toList_iff_getElem?_eq_some

end Registry

/-! ## The queue over the map is the plain map -/

section Overlaid

variable {Handler Task : Type}

/-- The registry is the plain map of the log, except for a registration whose
task has the queue's write lock and has still to insert it. -/
structure Overlaid (x : Logged Handler Task) : Prop where
  exclusive : x.state.Exclusive
  settled : (∀ u r caller, x.state.point u ≠ .enqueuing r caller) →
    x.state.registry = plainMap x.log
  enqueuing : ∀ u r caller, x.state.point u = .enqueuing r caller →
    ∃ before, x.log = before ++ [r] ∧ x.state.registry = plainMap before

theorem overlaid_init : Overlaid (Logged.init Handler Task) where
  exclusive := exclusive_init
  settled _ := by
    funext objectId
    simp only [State.registry, overlay, Logged.init, State.init, TreeMap.getElem?_emptyc]
    rfl
  enqueuing _ _ _ h := by cases h

/-- Without the queue's write lock nobody is about to insert. -/
theorem ne_enqueuing_of_queueFree {s : State Handler Task} (h : s.QueueFree) (u : Task)
    (r : Registration Handler) (caller : Caller Handler) : s.point u ≠ .enqueuing r caller := by
  intro hu
  refine h u ?_
  rw [hu]
  trivial

theorem Overlaid.registry_of_queueFree {x : Logged Handler Task} (hx : Overlaid x)
    (hfree : x.state.QueueFree) : x.state.registry = plainMap x.log :=
  hx.settled (ne_enqueuing_of_queueFree hfree)

/-- Nor is anybody while another task has the lock. -/
theorem Overlaid.registry_of_writesQueue {x : Logged Handler Task} (hx : Overlaid x) {t : Task}
    (ht : (x.state.point t).WritesQueue)
    (hpoint : ∀ r caller, x.state.point t ≠ .enqueuing r caller) :
    x.state.registry = plainMap x.log := by
  refine hx.settled fun u r caller hu => ?_
  have hut : u = t := hx.exclusive u t (by rw [hu]; trivial) ht
  exact hpoint r caller (hut ▸ hu)

variable [DecidableEq Task]

/-- A task that goes on from the queue's write lock leaves it free. -/
theorem queueFree_goto {s : State Handler Task} (hs : s.Exclusive) {t : Task}
    {point : Point Handler} (ht : (s.point t).WritesQueue) (hnew : ¬ point.WritesQueue) :
    (s.goto t point).QueueFree := by
  intro u hu
  by_cases hut : u = t
  · subst hut
    rw [goto_point_self] at hu
    exact hnew hu
  · rw [goto_point_of_ne _ _ hut] at hu
    exact hut (hs u t hu ht)

/-- A task goes on without getting or releasing the queue's lock for an
insertion. -/
theorem overlaid_goto {x : Logged Handler Task} (hx : Overlaid x) {t : Task} {point : Point Handler}
    (hexclusive : (x.state.goto t point).Exclusive)
    (hold : ∀ r caller, x.state.point t ≠ .enqueuing r caller)
    (hnew : ∀ r caller, point ≠ .enqueuing r caller) :
    Overlaid ⟨x.state.goto t point, x.log⟩ := by
  refine ⟨hexclusive, fun hnone => hx.settled fun u r caller hu => ?_, fun u r caller hu => ?_⟩
  · by_cases hut : u = t
    · subst hut
      exact hold r caller hu
    · exact hnone u r caller ((goto_point_of_ne _ _ hut).trans hu)
  · by_cases hut : u = t
    · subst hut
      exact absurd ((goto_point_self ..).symm.trans hu) (hnew r caller)
    · exact hx.enqueuing u r caller ((goto_point_of_ne _ _ hut).symm.trans hu)

theorem overlaid_lockQueue {x : Logged Handler Task} (hx : Overlaid x) {t : Task}
    {r : Registration Handler} {caller : Caller Handler} (hfree : x.state.QueueFree)
    (hexclusive : (x.state.goto t (.enqueuing r caller)).Exclusive) :
    Overlaid ⟨x.state.goto t (.enqueuing r caller), x.log ++ [r]⟩ := by
  refine ⟨hexclusive, fun hnone => absurd (goto_point_self ..) (hnone t r caller),
    fun u r' caller' hu => ?_⟩
  have hut : u = t := by
    by_contra hne
    refine hfree u ?_
    rw [← goto_point_of_ne _ _ hne, hu]
    trivial
  subst hut
  cases (goto_point_self ..).symm.trans hu
  exact ⟨x.log, rfl, hx.registry_of_queueFree hfree⟩

theorem overlaid_enqueue {x : Logged Handler Task} (hx : Overlaid x) {t : Task}
    {r : Registration Handler} {caller : Caller Handler}
    (ht : x.state.point t = .enqueuing r caller)
    (hexclusive : (x.state.goto t caller.resume).Exclusive) :
    Overlaid ⟨{ x.state.goto t caller.resume with
      queue := x.state.queue.insert r.objectId r.operation }, x.log⟩ := by
  obtain ⟨before, hlog, hregistry⟩ := hx.enqueuing t r caller ht
  have hfree : (x.state.goto t caller.resume).QueueFree := by
    refine queueFree_goto hx.exclusive (by rw [ht]; trivial) ?_
    cases caller with
    | task => exact id
    | handler later => exact id
  refine ⟨hexclusive, fun _ => ?_, fun u r' caller' hu => ?_⟩
  · show State.registry { x.state with queue := x.state.queue.insert r.objectId r.operation } = _
    rw [registry_insert, hregistry, hlog, plainMap_concat]
  · exact absurd hu (ne_enqueuing_of_queueFree hfree u r' caller')

theorem overlaid_drain {x : Logged Handler Task} (hx : Overlaid x) {t : Task} {packet : Packet}
    (ht : x.state.point t = .draining packet)
    (hexclusive : (x.state.goto t (.looking packet)).Exclusive) :
    Overlaid ⟨{ x.state.goto t (.looking packet) with
      queue := ∅
      handlers := updateEventHandlerRegistrations x.state.queue x.state.handlers }, x.log⟩ := by
  have hregistry := hx.registry_of_writesQueue (t := t) (by rw [ht]; trivial) (by simp [ht])
  have hfree : (x.state.goto t (.looking packet)).QueueFree :=
    queueFree_goto hx.exclusive (by rw [ht]; trivial) id
  refine ⟨hexclusive, fun _ => ?_, fun u r caller hu => ?_⟩
  · rw [← hregistry]
    funext objectId
    simp only [State.registry, TreeMap.getElem?_emptyc]
    exact congrFun (getElem?_updateEventHandlerRegistrations _ _) objectId
  · exact absurd hu (ne_enqueuing_of_queueFree hfree u r caller)

theorem overlaid_step {x x' : Logged Handler Task} {t : Task} {action : Action Handler}
    (hx : Overlaid x) (h : LoggedStep t action x x') : Overlaid x' := by
  obtain ⟨s, log⟩ := x
  obtain ⟨s', log'⟩ := x'
  obtain ⟨hstep, hlog⟩ := h
  have hexclusive := exclusive_step hx.exclusive hstep
  obtain rfl : log' = log ++ s.acquired t action := hlog
  cases hstep with
  | register _ ht | dispatch _ ht | lockQueueForUpdate ht _ | lockMap ht _ | readMap ht _
  | invoke _ ht | noHandler ht | handlerRegister ht | finish ht =>
    simp only [State.acquired, List.append_nil]
    exact overlaid_goto hx hexclusive (fun _ _ h => by cases ht.symm.trans h) (by simp)
  | @lockQueue _ r caller ht hfree =>
    have hacquired : s.acquired t .lockQueue = [r] := by
      have ht : s.point t = .registering r caller := ht
      simp only [State.acquired, ht]
    rw [hacquired]
    exact overlaid_lockQueue hx hfree hexclusive
  | enqueue ht =>
    simp only [State.acquired, List.append_nil]
    exact overlaid_enqueue hx ht hexclusive
  | drain ht =>
    simp only [State.acquired, List.append_nil]
    exact overlaid_drain hx ht hexclusive

theorem overlaid_run {x : Logged Handler Task}
    (h : ReflTransGen AnyLoggedStep (.init Handler Task) x) : Overlaid x := by
  induction h with
  | refl => exact overlaid_init
  | tail _ hlast ih =>
    obtain ⟨t, action, hstep⟩ := hlast
    exact overlaid_step ih hstep

end Overlaid

/-! ## What a dispatch sees -/

section Dispatches

variable {Handler Task : Type} [DecidableEq Task]

/-- An unlocked moment of the run from `x₁` to `x`. -/
def Between (x₁ y x : Logged Handler Task) : Prop :=
  ReflTransGen AnyLoggedStep x₁ y ∧ ReflTransGen AnyLoggedStep y x ∧ y.Unlocked

/-- The map of handlers is what the plain map was at such a moment. -/
def Drained (x₁ x : Logged Handler Task) : Prop :=
  ∃ y, Between x₁ y x ∧ (fun objectId : ObjectId => x.state.handlers[objectId]?) = plainMap y.log

/-- The looked-up handler is the plain map's at such a moment. -/
def LookedUp (x₁ x : Logged Handler Task) (objectId : ObjectId) (eventHandler : Option Handler) :
    Prop :=
  ∃ y, Between x₁ y x ∧ eventHandler = plainMap y.log objectId

/-- How far the call `dispatch(packet)` has got that started with `x₁` and has
no outcome yet. -/
def Dispatching (packet : Packet) (x₁ x : Logged Handler Task) : Point Handler → Prop
  | .updating packet' | .updatingMap packet' | .draining packet' => packet' = packet
  | .looking packet' => packet' = packet ∧ Drained x₁ x
  | .found packet' eventHandler =>
    packet' = packet ∧ LookedUp x₁ x packet.objectId eventHandler
  | .idle | .registering _ _ | .enqueuing _ _ | .handling _ _ _ => False

variable {x₁ x x' : Logged Handler Task} {t u : Task} {action : Action Handler} {packet : Packet}

theorem LoggedStep.of_step {s' : State Handler Task} (h : Step t action x.state s') :
    LoggedStep t action x ⟨s', x.log ++ x.state.acquired t action⟩ :=
  ⟨h, rfl⟩

theorem Between.step {y : Logged Handler Task} (h : Between x₁ y x)
    (hstep : LoggedStep u action x x') : Between x₁ y x' :=
  ⟨h.1, h.2.1.tail ⟨u, action, hstep⟩, h.2.2⟩

/-- With the drain the map of handlers becomes the plain map, and both locks
are free. -/
theorem drained_of_drain (hx : Overlaid x) (hrun : ReflTransGen AnyLoggedStep x₁ x)
    (hstep : LoggedStep u .drain x x') : Drained x₁ x' := by
  have hrun' : ReflTransGen AnyLoggedStep x₁ x' := hrun.tail ⟨u, _, hstep⟩
  obtain ⟨s, log⟩ := x
  obtain ⟨s', log'⟩ := x'
  obtain ⟨hs, rfl⟩ := hstep
  cases hs with
  | @drain _ packet ht =>
    have hqueue : (s.goto u (.looking packet)).QueueFree :=
      queueFree_goto hx.exclusive (by rw [ht]; trivial) id
    refine ⟨_, ⟨hrun', .refl, hqueue, fun v hv => hqueue v (writesQueue_of_writesMap hv)⟩, ?_⟩
    have hregistry := hx.registry_of_writesQueue (t := u) (by rw [ht]; trivial)
      fun _ _ h => by cases ht.symm.trans h
    simp only [State.acquired, List.append_nil]
    rw [getElem?_updateEventHandlerRegistrations]
    exact hregistry

/-- Once that has happened, the map only changes by further drains. -/
theorem drained_step (hx : Overlaid x) (hrun : ReflTransGen AnyLoggedStep x₁ x)
    (hstep : LoggedStep u action x x') (h : Drained x₁ x) : Drained x₁ x' := by
  obtain ⟨y, hy, hmap⟩ := h
  have hy' := hy.step hstep
  obtain ⟨s', log'⟩ := x'
  have hs := hstep.1
  cases hs with
  | register _ _ | lockQueue _ _ | enqueue _ | dispatch _ _ | lockQueueForUpdate _ _ | lockMap _ _
  | readMap _ _ | invoke _ _ | noHandler _ | handlerRegister _ | finish _ => exact ⟨y, hy', hmap⟩
  | drain _ => exact drained_of_drain hx hrun hstep

/-- A step of another task leaves the call where it is. -/
theorem dispatching_other (hx : Overlaid x) (hrun : ReflTransGen AnyLoggedStep x₁ x)
    (hstep : LoggedStep u action x x') {point : Point Handler}
    (h : Dispatching packet x₁ x point) : Dispatching packet x₁ x' point := by
  cases point with
  | idle | registering _ _ | enqueuing _ _ | handling _ _ _ => exact h.elim
  | updating _ | updatingMap _ | draining _ => exact h
  | looking _ => exact ⟨h.1, drained_step hx hrun hstep h.2⟩
  | found _ _ =>
    obtain ⟨hpacket, y, hy, hfound⟩ := h
    exact ⟨hpacket, y, hy.step hstep, hfound⟩

/-- A step of the task itself takes the call on, as long as it is not its
outcome. -/
theorem dispatching_own (hx : Overlaid x) (hrun : ReflTransGen AnyLoggedStep x₁ x)
    (hstep : LoggedStep t action x x') (hpending : action.outcome = none)
    (h : Dispatching packet x₁ x (x.state.point t)) :
    Dispatching packet x₁ x' (x'.state.point t) := by
  obtain ⟨s', log'⟩ := x'
  have hs := hstep.1
  cases hs with
  | register _ ht | lockQueue ht _ | enqueue ht | dispatch _ ht | handlerRegister ht =>
    rw [ht] at h
    exact h.elim
  | invoke _ _ | noHandler _ | finish _ => cases hpending
  | lockQueueForUpdate ht _ | lockMap ht _ =>
    rw [ht] at h
    show Dispatching packet x₁ _ ((x.state.goto t _).point t)
    rw [goto_point_self]
    exact h
  | drain ht =>
    rw [ht] at h
    show Dispatching packet x₁ _ ((x.state.goto t _).point t)
    rw [goto_point_self]
    exact ⟨h, drained_of_drain hx hrun hstep⟩
  | @readMap _ packet' ht _ =>
    rw [ht] at h
    obtain ⟨hpacket, y, hy, hmap⟩ := h
    show Dispatching packet x₁ _ ((x.state.goto t _).point t)
    rw [goto_point_self]
    exact ⟨hpacket, y, hy.step hstep, hpacket ▸ congrFun hmap packet'.objectId⟩

theorem dispatching_run (hx : Overlaid x₁) (hcall : x₁.state.point t = .updating packet)
    (h : ReflTransGen (PendingStep t) x₁ x) :
    Overlaid x ∧ ReflTransGen AnyLoggedStep x₁ x ∧
      Dispatching packet x₁ x (x.state.point t) := by
  induction h with
  | refl =>
    refine ⟨hx, .refl, ?_⟩
    rw [hcall]
    rfl
  | @tail x x' _ hlast ih =>
    obtain ⟨hx, hrun, hcalled⟩ := ih
    obtain ⟨u, action, hstep, hpending⟩ := hlast
    refine ⟨overlaid_step hx hstep, hrun.tail ⟨u, action, hstep⟩, ?_⟩
    by_cases hut : u = t
    · subst hut
      exact dispatching_own hx hrun hstep (hpending rfl) hcalled
    · rw [point_of_ne hstep.1 (Ne.symm hut)]
      exact dispatching_other hx hrun hstep hcalled

/-- The outcome is what the look-up has found. -/
theorem outcome_of_dispatching {outcome : Outcome Handler} (hstep : LoggedStep t action x x')
    (houtcome : action.outcome = some outcome) (h : Dispatching packet x₁ x (x.state.point t)) :
    ∃ y, Between x₁ y x ∧ outcome = plainDispatch (plainMap y.log) packet := by
  obtain ⟨s', log'⟩ := x'
  have hs := hstep.1
  cases hs with
  | register _ _ | lockQueue _ _ | enqueue _ | dispatch _ _ | lockQueueForUpdate _ _ | lockMap _ _
  | drain _ | readMap _ _ | handlerRegister _ => cases houtcome
  | invoke _ ht | noHandler ht =>
    rw [ht] at h
    obtain ⟨rfl, y, hy, hfound⟩ := h
    cases houtcome
    refine ⟨y, hy, ?_⟩
    rw [plainDispatch, ← hfound]
  | finish ht =>
    rw [ht] at h
    exact h.elim

/-- The log only grows. -/
theorem log_isPrefix (h : ReflTransGen AnyLoggedStep x x') : x.log <+: x'.log := by
  induction h with
  | refl => exact List.prefix_refl _
  | tail _ hlast ih =>
    obtain ⟨_, _, _, hlog⟩ := hlast
    rw [hlog]
    exact ih.trans (List.prefix_append _ _)

/-- The registration that a task inserts is the last one of the log. -/
theorem log_of_enqueue (hx : Overlaid x) {r : Registration Handler} {caller : Caller Handler}
    (hu : x.state.point u = .enqueuing r caller) (hstep : LoggedStep u .enqueue x x') :
    ∃ before, x'.log = before ++ [r] := by
  obtain ⟨before, hlog, _⟩ := hx.enqueuing u r caller hu
  obtain ⟨_, hlog'⟩ := hstep
  simp only [hlog', State.acquired, List.append_nil]
  exact ⟨before, hlog⟩

/-- The queue over the map is the plain map whenever neither lock is
write-held. A `dispatch` invokes the handler, or returns that there is none, as
on the plain map at an unlocked moment after the call. There the plain map had
every registration that had returned before the call, unless a later one for
the same object overrode it. -/
theorem registry_refines_map {x₀ : Logged Handler Task}
    (hreach : ReflTransGen AnyLoggedStep (.init Handler Task) x₀) :
    (x₀.Unlocked → x₀.state.registry = plainMap x₀.log) ∧
    ∀ (t : Task) (packet : Packet) (action : Action Handler) (outcome : Outcome Handler)
      (x₁ x₂ x₃ : Logged Handler Task),
      LoggedStep t (.dispatch packet) x₀ x₁ → ReflTransGen (PendingStep t) x₁ x₂ →
      LoggedStep t action x₂ x₃ → action.outcome = some outcome →
      ∃ y, Between x₁ y x₂ ∧ outcome = plainDispatch (plainMap y.log) packet ∧
        ∀ (u : Task) (r : Registration Handler) (caller : Caller Handler)
          (z z' : Logged Handler Task),
          ReflTransGen AnyLoggedStep (.init Handler Task) z →
          z.state.point u = .enqueuing r caller → LoggedStep u .enqueue z z' →
          ReflTransGen AnyLoggedStep z' x₀ → r.objectId = packet.objectId →
          ∃ before after, y.log = before ++ r :: after ∧
            ((∀ r' ∈ after, r'.objectId ≠ packet.objectId) →
              plainMap y.log packet.objectId = r.operation.eventHandler) := by
  have hx₀ := overlaid_run hreach
  refine ⟨fun hfree => hx₀.registry_of_queueFree hfree.1, ?_⟩
  intro t packet action outcome x₁ x₂ x₃ hcall hrun hlast houtcome
  have hupdating : x₁.state.point t = .updating packet := by
    obtain ⟨s₁, log₁⟩ := x₁
    have hs := hcall.1
    cases hs
    exact goto_point_self ..
  obtain ⟨_, _, hserved⟩ := dispatching_run (overlaid_step hx₀ hcall) hupdating hrun
  obtain ⟨y, hy, hplain⟩ := outcome_of_dispatching hlast houtcome hserved
  refine ⟨y, hy, hplain, fun u r caller z z' hz hu hstep hz' hr => ?_⟩
  obtain ⟨before, hlog⟩ := log_of_enqueue (overlaid_run hz) hu hstep
  have hrun : ReflTransGen AnyLoggedStep z' y := (hz'.tail ⟨t, _, hcall⟩).trans hy.1
  obtain ⟨after, hafter⟩ := log_isPrefix hrun
  rw [hlog, List.append_assoc] at hafter
  refine ⟨before, after, hafter.symm, fun hlast => ?_⟩
  rw [← hafter, ← hr]
  exact plainMap_of_last (hr ▸ hlast)

end Dispatches

/-- On its own, a `dispatch` gets as far as its look-up. -/
theorem exists_lookup {x₁ : Logged Unit Bool}
    {eventHandler : Option Unit} (htrue : x₁.state.point true = .updating somePacket)
    (hfalse : x₁.state.point false = .idle)
    (hmap : (updateEventHandlerRegistrations x₁.state.queue
      x₁.state.handlers)[somePacket.objectId]? = eventHandler) :
    ∃ x₂, ReflTransGen (PendingStep true) x₁ x₂ ∧
      x₂.state.point true = .found somePacket eventHandler := by
  have hfree : ∀ l, ¬ (x₁.state.point false).Holds l := by
    rw [hfalse]
    rintro (_ | _)
    · exact id
    · rintro (h | h) <;> exact h
  have hrun : ReflTransGen (PendingStep true) x₁ _ := .refl
  have hrun := hrun.tail ⟨true, _, .of_step (.lockQueueForUpdate htrue
    (queueFree_of_both (by rw [htrue]; exact id) (hfree .queuedEventHandlerOperations))),
    fun _ => rfl⟩
  have hmapFree : ∀ u, ¬ ((x₁.state.goto true (.updatingMap somePacket)).point u).Holds
      .objectIdToEventHandler := by
    rintro (_ | _)
    · exact hfree .objectIdToEventHandler
    · rintro (h | h) <;> exact h
  have hrun := hrun.tail ⟨true, _, .of_step (.lockMap rfl (mapFree_of_both hmapFree)),
    fun _ => rfl⟩
  have hrun := hrun.tail ⟨true, _, .of_step (.drain rfl), fun _ => rfl⟩
  refine ⟨_, hrun.tail ⟨true, _, .of_step (.readMap rfl ?_), fun _ => rfl⟩,
    congrArg (Point.found somePacket) hmap⟩
  rintro (_ | _) h
  · exact hfree .objectIdToEventHandler (.inl h)
  · exact h

/-- A task registers an event handler and drops it again; another one registers
one and dispatches a packet, and finds its own. -/
theorem registry_refines_map_two :
    ∃ (x x' y : Logged Unit Bool), LoggedStep true (.invoke () somePacket []) x x' ∧
      Outcome.invoked () somePacket = plainDispatch (plainMap y.log) somePacket := by
  have hreach : ReflTransGen AnyLoggedStep (Logged.init Unit Bool) _ := .refl
  have hreach := hreach.tail ⟨false, _, .of_step (.register someRegistration rfl)⟩
  have hreach := hreach.tail ⟨false, _, .of_step (.lockQueue rfl (queueFree_of_both id id))⟩
  have hreach := hreach.tail ⟨false, _, .of_step (.enqueue rfl)⟩
  have hreach := hreach.tail ⟨false, _, .of_step (.register (dropHandler (.ofNat 2)) rfl)⟩
  have hreach := hreach.tail ⟨true, _, .of_step (.register someRegistration rfl)⟩
  have hreach := hreach.tail ⟨false, _, .of_step (.lockQueue rfl (queueFree_of_both id id))⟩
  have hreach := hreach.tail ⟨false, _, .of_step (.enqueue rfl)⟩
  have hreach := hreach.tail ⟨true, _, .of_step (.lockQueue rfl (queueFree_of_both id id))⟩
  have hreach := hreach.tail ⟨true, _, .of_step (.enqueue rfl)⟩
  obtain ⟨x₀, hreach, hidle, hfalse, hmap⟩ : ∃ x₀ : Logged Unit Bool,
      ReflTransGen AnyLoggedStep (.init Unit Bool) x₀ ∧ x₀.state.point true = .idle ∧
      x₀.state.point false = .idle ∧ (updateEventHandlerRegistrations x₀.state.queue
        x₀.state.handlers)[somePacket.objectId]? = some () := ⟨_, hreach, rfl, rfl, rfl⟩
  let x₁ : Logged Unit Bool := ⟨x₀.state.goto true (.updating somePacket), x₀.log ++ []⟩
  obtain ⟨x₂, hrun, hfound⟩ := @exists_lookup x₁ _ rfl hfalse hmap
  have hinvoked : LoggedStep true (.invoke () somePacket []) x₂ _ :=
    .of_step (.invoke [] hfound)
  obtain ⟨y, _, hplain, _⟩ := (registry_refines_map hreach).2 true somePacket _ _ _ x₂ _
    (.of_step (.dispatch somePacket hidle)) hrun hinvoked rfl
  exact ⟨x₂, _, y, hinvoked, hplain⟩

end Dispatch

end WhaleLand
