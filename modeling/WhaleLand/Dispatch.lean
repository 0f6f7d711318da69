import WhaleLand.Basic
import WhaleLand.Packet
import Mathlib.Logic.Function.Basic
import Mathlib.Logic.Relation
import Mathlib.Tactic.Linarith

/-!
# Event handlers

`register_handler`, `drop_handler` and `dispatch`, as the steps of any number
of tasks on one connection. Registrations are queued under one reader-writer
lock, and `dispatch` moves the queue into the map of handlers, which has a lock
of its own.

A task is at a `Point` of its current call. Its guards, and so the locks it
holds, can be read off the point. A lock can be granted whenever no guard is in
the way; which of the waiting tasks gets it is left open.
-/

namespace WhaleLand

/-- `#[derive(Ord)]`: by the id. -/
instance : Ord ObjectId := ⟨fun a b => compare a.val b.val⟩

namespace Dispatch

open Std (TreeMap)

/-! ## Registrations -/

inductive EventHandlerOperation (Handler : Type)
  | register (eventHandler : Handler)
  | unregister
deriving DecidableEq

/-- A call of `register_handler` or `drop_handler`: what it puts into the
queue. -/
structure Registration (Handler : Type) where
  objectId : ObjectId
  operation : EventHandlerOperation Handler
deriving DecidableEq

section Registrations

variable {Handler : Type}

def registerHandler (objectId : ObjectId) (eventHandler : Handler) : Registration Handler :=
  ⟨objectId, .register eventHandler⟩

def dropHandler (objectId : ObjectId) : Registration Handler := ⟨objectId, .unregister⟩

/-- One turn of the loop of `update_event_handler_registrations`. -/
def applyOperation (map : TreeMap ObjectId Handler) (objectId : ObjectId)
    (operation : EventHandlerOperation Handler) : TreeMap ObjectId Handler :=
  match operation with
  | .register eventHandler => map.insert objectId eventHandler
  | .unregister => map.erase objectId

/-- `while let Some(..) = queue_guard.pop_first()`: the operations are applied
to the map in the order of their object ids, and the queue is left empty. -/
def updateEventHandlerRegistrations (queue : TreeMap ObjectId (EventHandlerOperation Handler))
    (map : TreeMap ObjectId Handler) : TreeMap ObjectId Handler :=
  queue.foldl applyOperation map

end Registrations

/-! ## Tasks -/

/-- Who made a registration: a task, or an event handler on behalf of the
`dispatch` that runs it with a packet, with the registrations it has still to
make. -/
inductive Caller (Handler : Type)
  | task
  | handler (eventHandler : Handler) (packet : Packet) (later : List (Registration Handler))
deriving DecidableEq

/-- Where a task is in its current call. -/
inductive Point (Handler : Type)
  | idle
  /-- Wants the queue's write lock. -/
  | registering (r : Registration Handler) (caller : Caller Handler)
  /-- Has it, and inserts into the queue. -/
  | enqueuing (r : Registration Handler) (caller : Caller Handler)
  /-- `dispatch` wants the queue's write lock. -/
  | updating (packet : Packet)
  /-- It has that, and wants the map's write lock. -/
  | updatingMap (packet : Packet)
  /-- It has both, and empties the queue into the map. -/
  | draining (packet : Packet)
  /-- It has released both, and wants the map's read lock. -/
  | looking (packet : Packet)
  /-- It has that, and has looked up the packet's handler. -/
  | found (packet : Packet) (eventHandler : Option Handler)
  /-- It still has that, and the handler runs with the packet, with these
  registrations to make. -/
  | handling (eventHandler : Handler) (packet : Packet) (calls : List (Registration Handler))
deriving DecidableEq

/-- The two locks. -/
inductive Lock
  | queuedEventHandlerOperations
  | objectIdToEventHandler
deriving DecidableEq

section Points

variable {Handler : Type}

/-- Where the caller goes on once the registration is queued. -/
def Caller.resume : Caller Handler → Point Handler
  | .task => .idle
  | .handler eventHandler packet later => .handling eventHandler packet later

namespace Point

/-- The lock that the task has asked for and not been granted yet. -/
def awaited : Point Handler → Option Lock
  | .registering _ _ | .updating _ => some .queuedEventHandlerOperations
  | .updatingMap _ | .looking _ => some .objectIdToEventHandler
  | .idle | .enqueuing _ _ | .draining _ | .found _ _ | .handling _ _ _ => none

/-- The task has the queue's write guard. -/
def WritesQueue : Point Handler → Prop
  | .enqueuing _ _ | .updatingMap _ | .draining _ => True
  | _ => False

/-- The task has the map's write guard. -/
def WritesMap : Point Handler → Prop
  | .draining _ => True
  | _ => False

/-- The task has the map's read guard, which `dispatch` keeps while the event
handler runs. -/
def ReadsMap : Point Handler → Prop
  | .found _ _ | .handling _ _ _ => True
  | .registering _ (.handler _ _ _) | .enqueuing _ (.handler _ _ _) => True
  | _ => False

def Holds (point : Point Handler) : Lock → Prop
  | .queuedEventHandlerOperations => point.WritesQueue
  | .objectIdToEventHandler => point.WritesMap ∨ point.ReadsMap

end Point

end Points

/-! ## The system -/

structure State (Handler Task : Type) where
  point : Task → Point Handler
  queue : TreeMap ObjectId (EventHandlerOperation Handler)
  handlers : TreeMap ObjectId Handler

/-- A fresh connection. -/
def State.init (Handler Task : Type) : State Handler Task := ⟨fun _ => .idle, ∅, ∅⟩

/-- What a task does in one step. -/
inductive Action (Handler : Type)
  | register (r : Registration Handler)
  | lockQueue
  | enqueue
  | dispatch (packet : Packet)
  | lockQueueForUpdate
  | lockMap
  | drain
  | readMap
  | invoke (eventHandler : Handler) (packet : Packet) (calls : List (Registration Handler))
  | handlerRegister
  | finish (result : Except Error Unit)

section System

variable {Handler Task : Type} [DecidableEq Task]

/-- Nobody has a guard of the queue. -/
def State.QueueFree (s : State Handler Task) : Prop := ∀ t, ¬ (s.point t).WritesQueue

/-- Nobody has a write guard of the map. -/
def State.MapReadable (s : State Handler Task) : Prop := ∀ t, ¬ (s.point t).WritesMap

/-- Nobody has a guard of the map. -/
def State.MapFree (s : State Handler Task) : Prop :=
  s.MapReadable ∧ ∀ t, ¬ (s.point t).ReadsMap

/-- The state with the task at another point. -/
def State.goto (s : State Handler Task) (t : Task) (point : Point Handler) : State Handler Task :=
  { s with point := Function.update s.point t point }

/-- The steps of a task. An event handler can make any finite number of
registrations and return any result. -/
inductive Step (t : Task) : Action Handler → State Handler Task → State Handler Task → Prop
  | register {s : State Handler Task} (r : Registration Handler) :
      s.point t = .idle → Step t (.register r) s (s.goto t (.registering r .task))
  | lockQueue {s : State Handler Task} {r : Registration Handler} {caller : Caller Handler} :
      s.point t = .registering r caller → s.QueueFree →
      Step t .lockQueue s (s.goto t (.enqueuing r caller))
  | enqueue {s : State Handler Task} {r : Registration Handler} {caller : Caller Handler} :
      s.point t = .enqueuing r caller →
      Step t .enqueue s
        { s.goto t caller.resume with queue := s.queue.insert r.objectId r.operation }
  | dispatch {s : State Handler Task} (packet : Packet) :
      s.point t = .idle → Step t (.dispatch packet) s (s.goto t (.updating packet))
  | lockQueueForUpdate {s : State Handler Task} {packet : Packet} :
      s.point t = .updating packet → s.QueueFree →
      Step t .lockQueueForUpdate s (s.goto t (.updatingMap packet))
  -- the queue stays locked while the map is waited for
  | lockMap {s : State Handler Task} {packet : Packet} :
      s.point t = .updatingMap packet → s.MapFree →
      Step t .lockMap s (s.goto t (.draining packet))
  | drain {s : State Handler Task} {packet : Packet} :
      s.point t = .draining packet →
      Step t .drain s
        { s.goto t (.looking packet) with
          queue := ∅, handlers := updateEventHandlerRegistrations s.queue s.handlers }
  | readMap {s : State Handler Task} {packet : Packet} :
      s.point t = .looking packet → s.MapReadable →
      Step t .readMap s (s.goto t (.found packet s.handlers[packet.objectId]?))
  -- the read guard of the map is kept while the event handler runs
  | invoke {s : State Handler Task} {packet : Packet} {eventHandler : Handler}
      (calls : List (Registration Handler)) :
      s.point t = .found packet (some eventHandler) →
      Step t (.invoke eventHandler packet calls) s (s.goto t (.handling eventHandler packet calls))
  | noHandler {s : State Handler Task} {packet : Packet} :
      s.point t = .found packet none →
      Step t (.finish (.error (.noEventHandler packet.objectId))) s (s.goto t .idle)
  | handlerRegister {s : State Handler Task} {eventHandler : Handler} {packet : Packet}
      {r : Registration Handler} {calls : List (Registration Handler)} :
      s.point t = .handling eventHandler packet (r :: calls) →
      Step t .handlerRegister s (s.goto t (.registering r (.handler eventHandler packet calls)))
  | finish {s : State Handler Task} {eventHandler : Handler} {packet : Packet}
      {result : Except Error Unit} :
      s.point t = .handling eventHandler packet [] → Step t (.finish result) s (s.goto t .idle)

/-- A step of some task. -/
def AnyStep (s s' : State Handler Task) : Prop := ∃ t action, Step t action s s'

/-! ## The points after a step -/

theorem goto_point_self (s : State Handler Task) (t : Task) (point : Point Handler) :
    (s.goto t point).point t = point :=
  Function.update_self ..

theorem goto_point_of_ne (s : State Handler Task) {t u : Task} (point : Point Handler)
    (hne : u ≠ t) : (s.goto t point).point u = s.point u :=
  Function.update_of_ne hne ..

/-- A step moves one task. -/
theorem point_of_ne {s s' : State Handler Task} {t u : Task} {action : Action Handler}
    (h : Step t action s s') (hne : u ≠ t) : s'.point u = s.point u := by
  cases h <;> exact goto_point_of_ne s _ hne

/-- At most one task has the queue's write guard. -/
def State.Exclusive (s : State Handler Task) : Prop :=
  ∀ t u, (s.point t).WritesQueue → (s.point u).WritesQueue → t = u

omit [DecidableEq Task] in
theorem exclusive_init : (State.init Handler Task).Exclusive := fun _ _ h _ => h.elim

/-- A task goes on with the guard that it has, or takes a free one. -/
theorem exclusive_goto {s : State Handler Task} (hs : s.Exclusive) {t : Task}
    {point : Point Handler} (hwrites : point.WritesQueue → (s.point t).WritesQueue ∨ s.QueueFree) :
    (s.goto t point).Exclusive := by
  have hother : ∀ u, u ≠ t → point.WritesQueue → ¬ (s.point u).WritesQueue := by
    intro u hne hpoint hu
    rcases hwrites hpoint with ht | hfree
    · exact hne (hs u t hu ht)
    · exact hfree u hu
  intro u v hu hv
  by_cases hut : u = t <;> by_cases hvt : v = t
  · rw [hut, hvt]
  · subst hut
    rw [goto_point_self] at hu
    rw [goto_point_of_ne s point hvt] at hv
    exact absurd hv (hother v hvt hu)
  · subst hvt
    rw [goto_point_self] at hv
    rw [goto_point_of_ne s point hut] at hu
    exact absurd hu (hother u hut hv)
  · rw [goto_point_of_ne s point hut] at hu
    rw [goto_point_of_ne s point hvt] at hv
    exact hs u v hu hv

/-- Every step keeps the queue's write guard with one task. -/
theorem exclusive_step {s s' : State Handler Task} {t : Task} {action : Action Handler}
    (hs : s.Exclusive) (h : Step t action s s') : s'.Exclusive := by
  cases h with
  | register _ _ | dispatch _ _ | readMap _ _ | noHandler _ | finish _ | invoke _ _
  | handlerRegister _ => exact exclusive_goto hs False.elim
  | lockQueue _ hfree | lockQueueForUpdate _ hfree => exact exclusive_goto hs fun _ => .inr hfree
  | enqueue ht =>
    -- the points do not depend on the queue
    exact exclusive_goto hs fun _ => .inl (by rw [ht]; trivial)
  | lockMap ht _ => exact exclusive_goto hs fun _ => .inl (by rw [ht]; trivial)
  | drain ht => exact exclusive_goto hs False.elim

/-- The map is only written with the queue locked. -/
theorem writesQueue_of_writesMap {point : Point Handler} (h : point.WritesMap) :
    point.WritesQueue := by
  cases point with
  | draining _ => trivial
  | idle | registering _ _ | enqueuing _ _ | updating _ | updatingMap _ | looking _ | found _ _
  | handling _ _ _ => exact h.elim

end System

/-! ## Two tasks -/

def somePacket : Packet := Packet.new (.ofNat 2) 0

/-- A registration for the packet's object. -/
def someRegistration : Registration Unit := registerHandler (.ofNat 2) ()

theorem queueFree_of_both {s : State Unit Bool} (htrue : ¬ (s.point true).WritesQueue)
    (hfalse : ¬ (s.point false).WritesQueue) : s.QueueFree := by
  rintro (_ | _)
  · exact hfalse
  · exact htrue

theorem mapFree_of_both {s : State Unit Bool}
    (h : ∀ t, ¬ (s.point t).Holds .objectIdToEventHandler) : s.MapFree :=
  ⟨fun t ht => h t (.inl ht), fun t ht => h t (.inr ht)⟩

end Dispatch

end WhaleLand
