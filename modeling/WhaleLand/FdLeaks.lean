import WhaleLand.Lib.Ledger
import WhaleLand.MessageAgreement
import WhaleLand.RecvPacket
import Mathlib.Data.Multiset.AddSub
import Mathlib.Tactic.Abel

/-!
# Descriptors that are let go

A descriptor that a receive delivers is first in the vector of a call of
`recv_packet`, then in the packet that the call returns, and then in the packet
that `dispatch` hands to a method of an event handler. The vector and the
packet hold raw descriptors, so an error in between lets them go without
closing them. The descriptors are all accounted for exactly when such errors
only come up with none of them in hand (`accounted_iff`).
-/

namespace WhaleLand

open Wlproto Ledger

/-! ## Receiving -/

/-- The descriptors that a call of `recv_packet` has in hand. -/
def RecvPoint.fds : RecvPoint → List RawFd
  | .header _ fds => fds
  | .payload _ _ _ _ fds => fds
  | .returned (.ok packet) => packet.fds
  | .returned (.error _) => []

/-- The descriptors that a receive delivers. -/
def deliveredFds : Except IoError Received → List RawFd
  | .ok got => got.fds
  | .error _ => []

/-- The outcomes of `recv_with_fds`. A receive that fails takes nothing. -/
inductive ReceiveOrFail (kernel : Kernel) (len : Nat) :
    Incoming → Except IoError Received → Incoming → Prop
  | ok {net net' : Incoming} {got : Received} :
      Receive kernel len net got net' → ReceiveOrFail kernel len net (.ok got) net'
  | error {net : Incoming} (e : IoError) : ReceiveOrFail kernel len net (.error e) net

/-- The receive makes the call fail: by an error of its own, by the end of the
stream in front of or inside a header, or by completing a header that is
refused. -/
def Refuses (t : Target) : RecvPoint → Except IoError Received → Prop
  | .header _ _, .error _ => True
  | .header fixedBuf _, .ok got => (got.bytes = [] ∧ got.fds = []) ∨
      (8 ≤ (fixedBuf ++ got.bytes).length ∧
        (packetSize t (fixedBuf ++ got.bytes) < 8 ∨ headerObjectId t (fixedBuf ++ got.bytes) = 0))
  | .payload _ _ _ _ _, .error _ => True
  | .payload _ _ _ _ _, .ok _ => False
  | .returned _, _ => False

instance (t : Target) (point : RecvPoint) (outcome : Except IoError Received) :
    Decidable (Refuses t point outcome) :=
  match point, outcome with
  | .header _ _, .error _ | .payload _ _ _ _ _, .error _ => inferInstanceAs (Decidable True)
  | .header _ _, .ok _ => inferInstanceAs (Decidable (_ ∨ _))
  | .payload _ _ _ _ _, .ok _ | .returned _, _ => inferInstanceAs (Decidable False)

section Receiving

variable {t : Target}

/-- A full header hands the descriptors on to the payload, or is refused. -/
theorem fds_afterHeader (fixedBuf : List UInt8) (fds : List RawFd) :
    (RecvPoint.afterHeader t fixedBuf fds).fds =
      if packetSize t fixedBuf < 8 ∨ headerObjectId t fixedBuf = 0 then [] else fds := by
  unfold RecvPoint.afterHeader
  split
  · next hsize => simp [hsize, RecvPoint.fds]
  · next hsize =>
    cases hnew : ObjectId.new (headerObjectId t fixedBuf) with
    | none =>
      have hzero := ObjectId.new_eq_none.mp hnew
      simp [hzero, RecvPoint.fds]
    | some objectId =>
      have hne : headerObjectId t fixedBuf ≠ 0 := by
        intro hzero
        rw [ObjectId.new_eq_none.mpr hzero] at hnew
        cases hnew
      simp [hsize, hne, RecvPoint.fds]

/-- A call that fails has nothing in hand any more; any other has what it had
and what it received. -/
theorem fds_resume {point : RecvPoint} (hwaits : point.bufferLen ≠ none)
    (outcome : Except IoError Received) :
    (Refuses t point outcome → (point.resume t outcome).fds = []) ∧
      (¬ Refuses t point outcome →
        (point.resume t outcome).fds = point.fds ++ deliveredFds outcome) := by
  cases point with
  | returned result => exact absurd rfl hwaits
  | payload objectId opcode payloadLen received fds =>
    cases outcome with
    | error e => exact ⟨fun _ => rfl, fun h => absurd trivial h⟩
    | ok got =>
      refine ⟨False.elim, fun _ => ?_⟩
      rw [RecvPoint.resume]
      split <;> rfl
  | header fixedBuf fds =>
    cases outcome with
    | error e => exact ⟨fun _ => rfl, fun h => absurd trivial h⟩
    | ok got =>
      simp only [Refuses, RecvPoint.resume]
      split
      · next hend => exact ⟨fun _ => rfl, fun h => absurd (.inl hend) h⟩
      · next hend =>
        rw [or_iff_right hend]
        split
        · next hshort =>
          exact ⟨fun h => absurd h.1 (Nat.not_le.mpr hshort), fun _ => rfl⟩
        · next hfull =>
          rw [and_iff_right (Nat.not_lt.mp hfull), fds_afterHeader]
          exact ⟨fun h => if_pos h, fun h => if_neg h⟩

end Receiving

/-! ## Dispatching -/

/-- An event handler with the generated `handle_event` of an interface. -/
structure GeneratedHandler where
  interface : Interface
  distinctNames : interface.DistinctNames
  eventHandler : EventHandlerTrait
  generated : interface.eventHandler = some eventHandler

/-- `dispatch` with the handlers that are registered: the calls of handler
methods, and the result. -/
def dispatch (t : Target) (handlers : ObjectId → Option GeneratedHandler) (packet : Packet) :
    List HandlerCall × Except Fault Unit :=
  match handlers packet.objectId with
  | some handler => handler.eventHandler.handleEvent t packet
  | none => ([], .error (.error (.noEventHandler packet.objectId)))

/-- The packet is a message with these arguments in the wire format. -/
def IsMessage (t : Target) (args : List Arg) (packet : Packet) : Prop :=
  ∃ vs, WellTyped args vs ∧ EncodesAll t vs packet.payload ∧ fdsOfValues vs = packet.fds

/-- There is no handler for the packet, or its opcode is that of an event that
it is not a message of. -/
def Unhandled (t : Target) (handlers : ObjectId → Option GeneratedHandler) (packet : Packet) :
    Prop :=
  match handlers packet.objectId with
  | some handler => ∃ event, handler.interface.events[packet.opcode.toNat]? = some event ∧
      ¬ IsMessage t event.args packet
  | none => True

/-- The packet that a method is given. -/
def HandlerCall.packet : HandlerCall → Packet
  | .handle _ packet _ => packet
  | .unknownEvent packet => packet

section Dispatching

variable {t : Target} {packet : Packet}

theorem isMessage_iff (hp : packet.Allocated t) {args : List Arg} :
    IsMessage t args packet ↔ ∃ vs, decodeArgs t args packet = .ok vs := by
  constructor
  · rintro ⟨vs, hty, hpayload, hfds⟩
    exact ⟨vs, decodeArgs_of_encodes hp hty hpayload hfds⟩
  · rintro ⟨vs, hdecode⟩
    exact ⟨vs, decodeArgs_ok hdecode⟩

/-- A generated `handle_event` gives the packet to one method, unless it is not
a message of the event that it should be. -/
theorem handleEvent_calls (hp : packet.Allocated t) (handler : GeneratedHandler) :
    ((∃ event, handler.interface.events[packet.opcode.toNat]? = some event ∧
        ¬ IsMessage t event.args packet) →
      (handler.eventHandler.handleEvent t packet).1 = []) ∧
    ((¬ ∃ event, handler.interface.events[packet.opcode.toNat]? = some event ∧
        ¬ IsMessage t event.args packet) →
      ∃ call, (handler.eventHandler.handleEvent t packet).1 = [call] ∧ call.packet = packet) := by
  cases hevent : handler.interface.events[packet.opcode.toNat]? with
  | none =>
    rw [handleEvent_of_le handler.generated (List.getElem?_eq_none_iff.mp hevent)]
    exact ⟨by simp, fun _ => ⟨_, rfl, rfl⟩⟩
  | some event =>
    rw [handleEvent_of_event handler.generated handler.distinctNames hevent rfl]
    simp only [Option.some.injEq, exists_eq_left', isMessage_iff hp]
    cases decodeArgs t event.args packet with
    | error e => exact ⟨fun _ => rfl, fun h => absurd (by simp) h⟩
    | ok args => exact ⟨fun h => absurd ⟨args, rfl⟩ h, fun _ => ⟨_, rfl, rfl⟩⟩

/-- `dispatch` gives the packet to one method, unless it is unhandled. -/
theorem dispatch_calls (hp : packet.Allocated t) (handlers : ObjectId → Option GeneratedHandler) :
    (Unhandled t handlers packet → (dispatch t handlers packet).1 = []) ∧
    (¬ Unhandled t handlers packet →
      ∃ call, (dispatch t handlers packet).1 = [call] ∧ call.packet = packet) := by
  unfold Unhandled dispatch
  cases handlers packet.objectId with
  | none => exact ⟨fun _ => rfl, fun h => absurd trivial h⟩
  | some handler => exact handleEvent_calls hp handler

end Dispatching

/-! ## Sessions -/

/-- A connection whose packets are received and dispatched: the stream, the
call of `recv_packet` that has the lock, and the packets that were returned and
not yet dispatched. The rest is the record of the descriptors: those delivered
by receives, the calls of handler methods, and the descriptors closed by the
library. -/
structure Session where
  net : Incoming
  receiving : Option RecvPoint
  pending : List Packet
  delivered : List RawFd
  handed : List HandlerCall
  closed : List RawFd

def Session.init (net : Incoming) : Session := ⟨net, none, [], [], [], []⟩

/-- What can happen: a call gets the lock; a receive succeeds or fails; the call
returns; a packet is dispatched, with the handlers registered at that time. -/
inductive SessionAction
  | call
  | receive (outcome : Except IoError Received)
  | returns
  | dispatch (packet : Packet) (handlers : ObjectId → Option GeneratedHandler)

/-- Packets are dispatched in any order, with other calls of `recv_packet` in
between. A packet is one that fits in memory. No step closes a descriptor:
there is no code for it. -/
inductive SessionStep (kernel : Kernel) (t : Target) : Session → SessionAction → Session → Prop
  | call {s : Session} :
      s.receiving = none → SessionStep kernel t s .call { s with receiving := some .start }
  | receive {s : Session} {point : RecvPoint} {len : Nat} {outcome : Except IoError Received}
      {net' : Incoming} :
      s.receiving = some point → point.bufferLen = some len →
      ReceiveOrFail kernel len s.net outcome net' →
      SessionStep kernel t s (.receive outcome) { s with
        net := net'
        receiving := some (point.resume t outcome)
        delivered := s.delivered ++ deliveredFds outcome }
  | returnedPacket {s : Session} {packet : Packet} :
      s.receiving = some (.returned (.ok packet)) →
      SessionStep kernel t s .returns { s with receiving := none, pending := s.pending ++ [packet] }
  | returnedError {s : Session} {e : Error} :
      s.receiving = some (.returned (.error e)) →
      SessionStep kernel t s .returns { s with receiving := none }
  | dispatched {s : Session} {packet : Packet} {before after : List Packet}
      {handlers : ObjectId → Option GeneratedHandler} :
      s.pending = before ++ packet :: after → packet.Allocated t →
      SessionStep kernel t s (.dispatch packet handlers) { s with
        pending := before ++ after
        handed := s.handed ++ (dispatch t handlers packet).1 }

namespace Session

/-- Where descriptors can be: in the hands of the call of `recv_packet`, in a
packet that waits to be dispatched, in a packet handed to a method, or
closed. -/
def held (s : Session) : Multiset RawFd :=
  ↑(s.receiving.elim [] RecvPoint.fds) + ↑(s.pending.flatMap Packet.fds) +
    ↑(s.handed.flatMap fun call => call.packet.fds) + ↑s.closed

/-- Every descriptor that was delivered is in exactly one place. -/
def Accounted (s : Session) : Prop := (↑s.delivered : Multiset RawFd) = s.held

/-- If the call fails, or the packet is unhandled, there are no descriptors in
hand. -/
def Spares (t : Target) (s : Session) : SessionAction → Prop
  | .receive outcome => ∀ point, s.receiving = some point → Refuses t point outcome →
      point.fds = [] ∧ deliveredFds outcome = []
  | .dispatch packet handlers => Unhandled t handlers packet → packet.fds = []
  | .call | .returns => True

end Session

/-! ## The ledger of the descriptors -/

section Sessions

variable {kernel : Kernel} {t : Target} {s s' : Session}

/-- What each step does to the ledger. -/
theorem exists_entry {a : SessionAction} (h : SessionStep kernel t s a s') :
    ∃ new lost, Entry (fun s => (↑s.delivered : Multiset RawFd)) Session.held s s' new lost ∧
      (lost = 0 ↔ s.Spares t a) := by
  cases h with
  | call hnone =>
    refine ⟨0, 0, ⟨by simp, ?_⟩, by simp [Session.Spares]⟩
    simp [Session.held, hnone, RecvPoint.start, RecvPoint.fds]
  | @receive point len outcome net' hpoint hlen _ =>
    have hwaits : point.bufferLen ≠ none := by simp [hlen]
    obtain ⟨hrefused, hkept⟩ := fds_resume (t := t) hwaits outcome
    by_cases hrefuses : Refuses t point outcome
    · refine ⟨↑(deliveredFds outcome), ↑(point.fds ++ deliveredFds outcome), ⟨by simp, ?_⟩, ?_⟩
      · simp only [Session.held, hpoint, Option.elim_some, hrefused hrefuses, ← Multiset.coe_add,
          Multiset.coe_nil]
        abel
      · simp [Session.Spares, hpoint, hrefuses]
    · refine ⟨↑(deliveredFds outcome), 0, ⟨by simp, ?_⟩, ?_⟩
      · simp only [Session.held, hpoint, Option.elim_some, hkept hrefuses, ← Multiset.coe_add]
        abel
      · simp [Session.Spares, hpoint, hrefuses]
  | @returnedPacket packet hpoint =>
    refine ⟨0, 0, ⟨by simp, ?_⟩, by simp [Session.Spares]⟩
    simp only [Session.held, hpoint, Option.elim_some, Option.elim_none, RecvPoint.fds,
      List.flatMap_append, List.flatMap_singleton, ← Multiset.coe_add, Multiset.coe_nil]
    abel
  | returnedError hpoint =>
    refine ⟨0, 0, ⟨by simp, ?_⟩, by simp [Session.Spares]⟩
    simp [Session.held, hpoint, RecvPoint.fds]
  | @dispatched packet before after handlers hpending hp =>
    obtain ⟨hdropped, hhanded⟩ := dispatch_calls hp handlers
    by_cases hunhandled : Unhandled t handlers packet
    · refine ⟨0, ↑packet.fds, ⟨by simp, ?_⟩, by simp [Session.Spares, hunhandled]⟩
      simp only [Session.held, hpending, hdropped hunhandled, List.flatMap_append,
        List.flatMap_cons, List.append_nil, ← Multiset.coe_add]
      abel
    · obtain ⟨call, hcall, hpacket⟩ := hhanded hunhandled
      refine ⟨0, 0, ⟨by simp, ?_⟩, by simp [Session.Spares, hunhandled]⟩
      simp only [Session.held, hpending, hcall, List.flatMap_append, List.flatMap_cons,
        hpacket, ← Multiset.coe_add]
      abel

/-- In a run, every descriptor is accounted for after every step exactly when
no call that fails and no packet that is unhandled has descriptors in hand. -/
theorem accounted_iff (kernel : Kernel) (t : Target) (net : Incoming)
    (run : List (SessionAction × Session)) (h : IsRun (SessionStep kernel t) (.init net) run) :
    (∀ x ∈ run, x.2.Accounted) ↔ Along (Session.Spares t) (.init net) run := by
  have hinit : (fun s : Session => (↑s.delivered : Multiset RawFd)) (.init net) =
      Session.held (.init net) := rfl
  exact balanced_iff_along h hinit fun _ _ _ => exists_entry

end Sessions

/-! ## A packet that is handed over, and a refused header -/

/-- A frame with the object id 3, the opcode 7 and one byte of payload; a
descriptor comes with it. -/
def handedCells : List Cell := attach [5] [3, 0, 0, 0, 7, 0, 9, 0, 1]

/-- A header with the object id 0; a descriptor comes with it. -/
def nullHeaderCells : List Cell := attach [5] [0, 0, 0, 0, 0, 0, 8, 0]

def registryHandler : GeneratedHandler where
  interface := registryInterface
  distinctNames := ⟨by decide, by decide, by decide, by decide⟩
  eventHandler := _
  generated := rfl

/-- The packet of the frame is received and handed to `unknown_event`. -/
def handedRun : List (SessionAction × Session) :=
  let packet : Packet := ⟨.ofNat 3, 7, [1], [5]⟩
  let point : RecvPoint := .payload (.ofNat 3) 7 1 [] [5]
  [(.call, ⟨⟨handedCells, true⟩, some .start, [], [], [], []⟩),
    (.receive (.ok ⟨[3, 0, 0, 0, 7, 0, 9, 0], [5]⟩),
      ⟨⟨[⟨1, []⟩], true⟩, some point, [], [5], [], []⟩),
    (.receive (.ok ⟨[1], []⟩), ⟨⟨[], true⟩, some (.returned (.ok packet)), [], [5], [], []⟩),
    (.returns, ⟨⟨[], true⟩, none, [packet], [5], [], []⟩),
    (.dispatch packet fun _ => some registryHandler,
      ⟨⟨[], true⟩, none, [], [5], [.unknownEvent packet], []⟩)]

theorem accounted_iff_handed :
    IsRun (SessionStep .linux ⟨.little, .w64⟩) (.init ⟨handedCells, true⟩) handedRun ∧
      ∀ x ∈ handedRun, x.2.Accounted := by
  have hheader : Receive .linux 8 ⟨handedCells, true⟩ ⟨[3, 0, 0, 0, 7, 0, 9, 0], [5]⟩
      ⟨[⟨1, []⟩], true⟩ := @Receive.data .linux 8 (handedCells.take 8) _ _ (by decide) (by decide)
  have hpayload : Receive .linux 1 ⟨[⟨1, []⟩], true⟩ ⟨[1], []⟩ ⟨[], true⟩ :=
    .all (by decide) (by decide)
  have hrun : IsRun (SessionStep .linux ⟨.little, .w64⟩) (.init ⟨handedCells, true⟩) handedRun :=
    ⟨.call rfl, @SessionStep.receive _ _ _ .start _ _ _ rfl rfl (.ok hheader),
      @SessionStep.receive _ _ _ (.payload (.ofNat 3) 7 1 [] [5]) _ _ _ rfl rfl (.ok hpayload),
      .returnedPacket rfl, @SessionStep.dispatched _ _ _ _ [] [] _ rfl ⟨by decide, by decide⟩,
      trivial⟩
  refine ⟨hrun, (accounted_iff .linux ⟨.little, .w64⟩ ⟨handedCells, true⟩ handedRun hrun).mpr ?_⟩
  refine ⟨trivial, ?_, ?_, trivial, ?_, trivial⟩
  · rintro _ ⟨rfl⟩ hrefuses
    exact absurd hrefuses (by decide)
  · rintro _ ⟨rfl⟩ hrefuses
    exact absurd hrefuses (by decide)
  · rintro ⟨event, hevent, _⟩
    cases hevent

/-- A refused header's descriptor is gone when `recv_packet` returns. -/
theorem refused_fd_leaks :
    ¬ ∀ (t : Target) (net : Incoming) (run : List (SessionAction × Session)),
      IsRun (SessionStep .linux t) (.init net) run → ∀ x ∈ run, x.2.Accounted := by
  intro h
  let leaked : Session := ⟨⟨[], true⟩, none, [], [5], [], []⟩
  have hrun : IsRun (SessionStep .linux ⟨.little, .w64⟩) (.init ⟨nullHeaderCells, true⟩)
      [(.call, _), (.receive (.ok ⟨[0, 0, 0, 0, 0, 0, 8, 0], [5]⟩), _), (.returns, leaked)] :=
    ⟨.call rfl, .receive rfl rfl (.ok (.all (by decide) (by decide))), .returnedError rfl, trivial⟩
  have hleaked := h _ _ _ hrun (.returns, leaked) (by simp)
  revert hleaked
  unfold Session.Accounted
  decide

end WhaleLand
