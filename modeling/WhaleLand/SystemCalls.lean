import WhaleLand.ControlRoundTrip
import WhaleLand.Lib.Refinement
import WhaleLand.RecvFailure
import WhaleLand.SendFailure

/-!
# The socket functions over system calls

`send_with_fds`, `send` and `recv_with_fds` make system calls in a loop: wait
until the socket is ready, call, and start again if the call would have
blocked. Descriptors go through control buffers that are assembled and taken
apart byte by byte. `send_packet` and `recv_packet` over these loops refine the
routines in which a send or a receive is one step (`sender_refines`,
`receiver_refines`), so what is known of those holds of the code with its
loops and buffers (`sends_on_socket`, `receives_on_socket`).
-/

namespace WhaleLand

open Relation CriticalSection ControlMessages

/-! ## What the system calls do -/

section SystemCalls

variable (kernel : Kernel) (libc : Libc) (t : Target)

/-- A successful `sendmsg`. The descriptors are those of the control messages
in the buffer. -/
inductive Sendmsg (data : List UInt8) (control : Msghdr) (wire : List Cell) :
    Nat → List Cell → Prop
  | sent {messages : List (Message t)} {n : Nat} {wire' : List Cell} :
      control.Holds messages → Send data (messages.flatMap (Message.fds libc)) wire n wire' →
      Sendmsg data control wire n wire'

/-- A successful `recvmsg`. It leaves the received descriptors in the buffer,
in control messages among others. -/
inductive Recvmsg (len : Nat) (net : Incoming) : List UInt8 → Msghdr → Incoming → Prop
  | received {got : Received} {net' : Incoming} {control : Msghdr} {messages : List (Message t)} :
      Receive kernel len net got net' → control.Holds messages →
      messages.flatMap (Message.fds libc) = got.fds →
      Recvmsg len net got.bytes control net'

end SystemCalls

/-! ## Sending -/

/-- A call of `send_packet` and where it is in `send_with_fds` or `send`: the
control buffer, once it is assembled, and whether the socket is known to be
writable. -/
structure SocketSender where
  sender : Sender
  control : Option Msghdr
  ready : Bool
deriving DecidableEq

/-- The point is in the loop of the socket function, not before it. -/
def InSendLoop (control : Option Msghdr) : SendPoint → Prop
  | .first _ _ => control ≠ none
  | .more _ _ => True
  | .returned _ => False

/-- The steps of a call. Where failures and drops happen is a parameter; a call
is dropped where it waits. Nothing is said of what follows an access out of
bounds. -/
inductive SocketSenderStep (libc : Libc) (t : Target) (Interrupts : SendPoint → Prop) :
    SocketSender → List Cell → SocketSender → List Cell → Prop
  | assembled {bytes : List UInt8} {fds : List RawFd} {totalSent : Nat} {control : Msghdr}
      {wire : List Cell} :
      sendControl libc t fds = .ok control →
      SocketSenderStep libc t Interrupts
        ⟨⟨some (.first bytes fds), totalSent⟩, none, false⟩ wire
        ⟨⟨some (.first bytes fds), totalSent⟩, some control, false⟩ wire
  | panicked {bytes : List UInt8} {fds : List RawFd} {totalSent : Nat} {wire : List Cell} :
      sendControl libc t fds = .error .panic →
      SocketSenderStep libc t Interrupts
        ⟨⟨some (.first bytes fds), totalSent⟩, none, false⟩ wire
        ⟨⟨none, totalSent⟩, none, false⟩ wire
  | writable {point : SendPoint} {totalSent : Nat} {control : Option Msghdr}
      {wire : List Cell} :
      InSendLoop control point →
      SocketSenderStep libc t Interrupts ⟨⟨some point, totalSent⟩, control, false⟩ wire
        ⟨⟨some point, totalSent⟩, control, true⟩ wire
  | sentWithFds {bytes : List UInt8} {fds : List RawFd} {totalSent now : Nat}
      {control : Msghdr} {wire wire' : List Cell} :
      Sendmsg libc t bytes control wire now wire' →
      SocketSenderStep libc t Interrupts
        ⟨⟨some (.first bytes fds), totalSent⟩, some control, true⟩ wire
        ⟨⟨some ((SendPoint.first bytes fds).resume (.ok now)), totalSent + now⟩, none, false⟩ wire'
  | sent {serialized : List UInt8} {before totalSent now : Nat} {control : Option Msghdr}
      {wire wire' : List Cell} :
      Send (serialized.drop before) [] wire now wire' →
      SocketSenderStep libc t Interrupts
        ⟨⟨some (.more serialized before), totalSent⟩, control, true⟩ wire
        ⟨⟨some ((SendPoint.more serialized before).resume (.ok now)), totalSent + now⟩, none,
          false⟩ wire'
  | wouldBlock {sender : Sender} {control : Option Msghdr} {wire : List Cell} :
      SocketSenderStep libc t Interrupts ⟨sender, control, true⟩ wire ⟨sender, control, false⟩ wire
  | failed {point : SendPoint} {totalSent : Nat} {control : Option Msghdr} {ready : Bool}
      {wire : List Cell} (e : IoError) :
      InSendLoop control point → Interrupts point →
      SocketSenderStep libc t Interrupts ⟨⟨some point, totalSent⟩, control, ready⟩ wire
        ⟨⟨some (point.resume (.error e)), totalSent⟩, none, false⟩ wire
  | dropped {point : SendPoint} {totalSent : Nat} {control : Option Msghdr} {wire : List Cell} :
      InSendLoop control point → Interrupts point →
      SocketSenderStep libc t Interrupts ⟨⟨some point, totalSent⟩, control, false⟩ wire
        ⟨⟨none, totalSent⟩, none, false⟩ wire

/-- `send_packet` over system calls. -/
def sendPacketOnSocket (libc : Libc) (t : Target) (Interrupts : SendPoint → Prop) :
    Routine Packet (List Cell) SendOutcome where
  Point := SocketSender
  enter packet :=
    match packet.serialize t with
    | .error e => .inl ⟨some (.error e), 0⟩
    | .ok serialized => .inr ⟨⟨some (.first serialized packet.fds), 0⟩, none, false⟩
  step := SocketSenderStep libc t Interrupts
  result x := (sendPacketInterrupted t Interrupts).result x.sender

/-! ## Receiving -/

/-- A call of `recv_packet` and whether, in `recv_with_fds`, the socket is known
to be readable. -/
structure SocketReceiver where
  point : Option RecvPoint
  ready : Bool
deriving DecidableEq

namespace RecvPoint

/-- The descriptors that the call has so far. -/
def fdsSoFar : RecvPoint → List RawFd
  | .header _ fds => fds
  | .payload _ _ _ _ fds => fds
  | .returned _ => []

/-- Goes on after a receive, given the bytes, the list that the descriptors
have been appended to, and the number of those. -/
def resumeWith (t : Target) (bytes : List UInt8) (fds : List RawFd) (fdCount : Nat) :
    RecvPoint → RecvPoint
  | .header fixedBuf _ =>
    if bytes.length = 0 ∧ fdCount = 0 then
      .returned (.error (.io .unexpectedEof))
    else if (fixedBuf ++ bytes).length < 8 then
      .header (fixedBuf ++ bytes) fds
    else
      afterHeader t (fixedBuf ++ bytes) fds
  | .payload objectId opcode payloadLen received _ =>
    if (received ++ bytes).length < payloadLen then
      .payload objectId opcode payloadLen (received ++ bytes) fds
    else
      .returned (.ok (Packet.newFromExisting objectId opcode (received ++ bytes) fds))
  | .returned result => .returned result

end RecvPoint

/-- The steps of a call. After `recvmsg`, the control buffer is taken apart; a
call that crashes in this returns nothing. -/
inductive SocketReceiverStep (kernel : Kernel) (libc : Libc) (t : Target)
    (Interrupts : RecvPoint → Prop) : SocketReceiver → Incoming → SocketReceiver → Incoming → Prop
  | readable {point : RecvPoint} {net : Incoming} :
      point.bufferLen ≠ none →
      SocketReceiverStep kernel libc t Interrupts ⟨some point, false⟩ net ⟨some point, true⟩ net
  | received {point : RecvPoint} {len fuel fdCount : Nat} {bytes : List UInt8}
      {control : Msghdr} {fds : List RawFd} {net net' : Incoming} :
      point.bufferLen = some len → Recvmsg kernel libc t len net bytes control net' →
      recvControl libc t control fuel point.fdsSoFar = some (.ok (fds, fdCount)) →
      SocketReceiverStep kernel libc t Interrupts ⟨some point, true⟩ net
        ⟨some (point.resumeWith t bytes fds fdCount), false⟩ net'
  | crashed {point : RecvPoint} {len fuel : Nat} {bytes : List UInt8} {control : Msghdr}
      {crash : Crash} {net net' : Incoming} :
      point.bufferLen = some len → Recvmsg kernel libc t len net bytes control net' →
      recvControl libc t control fuel point.fdsSoFar = some (.error crash) →
      SocketReceiverStep kernel libc t Interrupts ⟨some point, true⟩ net ⟨none, false⟩ net'
  | wouldBlock {point : Option RecvPoint} {net : Incoming} :
      SocketReceiverStep kernel libc t Interrupts ⟨point, true⟩ net ⟨point, false⟩ net
  | failed {point : RecvPoint} {ready : Bool} {net : Incoming} (e : IoError) :
      point.bufferLen ≠ none → Interrupts point →
      SocketReceiverStep kernel libc t Interrupts ⟨some point, ready⟩ net
        ⟨some (point.resume t (.error e)), false⟩ net
  | dropped {point : RecvPoint} {net : Incoming} :
      point.bufferLen ≠ none → Interrupts point →
      SocketReceiverStep kernel libc t Interrupts ⟨some point, false⟩ net ⟨none, false⟩ net

/-- `recv_packet` over system calls. -/
def recvPacketOnSocket (kernel : Kernel) (libc : Libc) (t : Target)
    (Interrupts : RecvPoint → Prop) : Routine Unit Incoming (Option (Except Error Packet)) where
  Point := SocketReceiver
  enter _ := .inr ⟨some .start, false⟩
  step := SocketReceiverStep kernel libc t Interrupts
  result x := (recvPacketInterrupted kernel t Interrupts).result x.point

/-! ## What the buffers hold -/

section Buffers

variable {kernel : Kernel} {libc : Libc} {t : Target} {control : Msghdr}

/-- More fuel does not change a result. -/
theorem walk_add {fuel : Nat} (more : Nat) {header : Option Nat} {fds : List RawFd} {count : Nat}
    {result : Except Crash (List RawFd × Nat)}
    (h : walk libc t control fuel header fds count = some result) :
    walk libc t control (fuel + more) header fds count = some result := by
  induction fuel generalizing header fds count with
  | zero =>
    cases header with
    | none =>
      simp only [walk] at h ⊢
      exact h
    | some header => cases h
  | succ fuel ih =>
    cases header with
    | none =>
      simp only [walk] at h ⊢
      exact h
    | some header =>
      rw [Nat.succ_add]
      simp only [walk] at h ⊢
      cases hfds : messageFds libc t control header with
      | error e =>
        rw [hfds] at h
        exact h
      | ok fdBuf =>
        rw [hfds] at h
        exact ih h

/-- Whatever the loop returns for a sequence of messages, it is their
descriptors. -/
theorem recvControl_eq (hlibc : libc.Documented t) {messages : List (Message t)}
    (h : control.Holds messages) {fuel : Nat} {earlier : List RawFd}
    {result : Except Crash (List RawFd × Nat)}
    (hresult : recvControl libc t control fuel earlier = some result) :
    result = .ok (earlier ++ messages.flatMap (Message.fds libc),
      (messages.flatMap (Message.fds libc)).length) := by
  obtain ⟨enough, henough⟩ := yields_of_holds hlibc h earlier
  have hlarge := henough (fuel + enough) (Nat.le_add_left _ _)
  unfold recvControl at hresult hlarge
  cases hwalk : walk libc t control fuel (libc.cmsgFirsthdr control) earlier 0 with
  | none =>
    rw [hwalk] at hresult
    cases hresult
  | some walked =>
    rw [walk_add enough hwalk] at hlarge
    rw [hwalk] at hresult
    exact Option.some.inj (hresult.symm.trans hlarge)

/-- A buffer is read as one list of descriptors. -/
theorem fds_of_holds (hlibc : libc.Documented t) {messages messages' : List (Message t)}
    (h : control.Holds messages) (h' : control.Holds messages') :
    messages.flatMap (Message.fds libc) = messages'.flatMap (Message.fds libc) := by
  obtain ⟨enough, henough⟩ := yields_of_holds hlibc h []
  have hread := recvControl_eq hlibc h' (henough enough le_rfl)
  simp only [List.nil_append, Except.ok.injEq, Prod.mk.injEq] at hread
  exact hread.1

/-- The buffer that is assembled for some descriptors is read as these. -/
theorem fds_of_sendControl (hlibc : libc.Documented t) {fds : List RawFd}
    (hcontrol : sendControl libc t fds = .ok control) {messages : List (Message t)}
    (h : control.Holds messages) : messages.flatMap (Message.fds libc) = fds := by
  have hfits := fits_of_sendControl_eq_ok hlibc hcontrol
  obtain ⟨built, hbuilt, hholds⟩ := sendControl_of_fits hlibc hfits
  cases hcontrol.symm.trans hbuilt
  rw [fds_of_holds hlibc h hholds, List.flatMap_singleton, messageOf_fds]

end Buffers

/-! ## The refinements -/

section Refinements

variable {kernel : Kernel} {libc : Libc} {t : Target}

/-- Failures and drops at the given points, and panics of `send_with_fds` for
lists of descriptors that do not fit into a control message. -/
def OrTooManyFds (t : Target) (Interrupts : SendPoint → Prop) (point : SendPoint) : Prop :=
  Interrupts point ∨ ∃ bytes fds, point = .first bytes fds ∧ ¬ SpaceFits t fds.length

/-- The control buffer is the one for the descriptors of the first send. -/
def Assembled (libc : Libc) (t : Target) (x : SocketSender) : Prop :=
  ∀ control, x.control = some control → ∃ bytes fds, x.sender.point = some (.first bytes fds) ∧
    sendControl libc t fds = .ok control

theorem pending_of_inSendLoop {control : Option Msghdr} {point : SendPoint}
    (h : InSendLoop control point) : point.pending ≠ none := by
  cases point with
  | first _ _ | more _ _ => exact Option.some_ne_none _
  | returned _ => exact h.elim

theorem sender_step (hlibc : libc.Documented t) {Interrupts : SendPoint → Prop}
    {x x' : SocketSender} {wire wire' : List Cell} (hx : Assembled libc t x)
    (h : SocketSenderStep libc t Interrupts x wire x' wire') :
    Assembled libc t x' ∧ ((x'.sender = x.sender ∧ wire' = wire) ∨
      SenderStep (OrTooManyFds t Interrupts) x.sender wire x'.sender wire') := by
  have hnone : ∀ {sender : Sender} {ready : Bool}, Assembled libc t ⟨sender, none, ready⟩ :=
    fun _ h => by cases h
  cases h with
  | @assembled bytes fds totalSent control wire hcontrol =>
    refine ⟨?_, .inl ⟨rfl, rfl⟩⟩
    rintro _ ⟨⟩
    exact ⟨bytes, fds, rfl, hcontrol⟩
  | @panicked bytes fds totalSent wire hpanic =>
    refine ⟨hnone, .inr (.dropped (Option.some_ne_none _) (.inr ⟨bytes, fds, rfl, ?_⟩))⟩
    intro hfits
    obtain ⟨_, hok, _⟩ := sendControl_of_fits hlibc hfits
    cases hpanic.symm.trans hok
  | writable _ => exact ⟨fun control hcontrol => hx control hcontrol, .inl ⟨rfl, rfl⟩⟩
  | sentWithFds hsend =>
    refine ⟨hnone, .inr ?_⟩
    obtain ⟨hholds, hsend⟩ := hsend
    obtain ⟨_, _, hpoint, hcontrol⟩ := hx _ rfl
    cases hpoint
    rw [fds_of_sendControl hlibc hcontrol hholds] at hsend
    exact .sent rfl hsend
  | sent hsend => exact ⟨hnone, .inr (.sent rfl hsend)⟩
  | wouldBlock => exact ⟨fun control hcontrol => hx control hcontrol, .inl ⟨rfl, rfl⟩⟩
  | failed e hloop hinterrupts =>
    exact ⟨hnone, .inr (.failed e (pending_of_inSendLoop hloop) (.inl hinterrupts))⟩
  | dropped hloop hinterrupts =>
    exact ⟨hnone, .inr (.dropped (pending_of_inSendLoop hloop) (.inl hinterrupts))⟩

/-- `send_packet` over system calls refines `send_packet` over sends. -/
theorem sender_refines (hlibc : libc.Documented t) (Interrupts : SendPoint → Prop) :
    Refines (sendPacketOnSocket libc t Interrupts)
      (sendPacketInterrupted t (OrTooManyFds t Interrupts)) SocketSender.sender
      (Assembled libc t) where
  enter_inl packet o h := by
    cases hbytes : packet.serialize t with
    | error e =>
      simp only [sendPacketOnSocket, sendPacketInterrupted, hbytes] at h ⊢
      cases h
      rfl
    | ok bytes =>
      simp only [sendPacketOnSocket, hbytes] at h
      cases h
  enter_inr packet x h := by
    cases hbytes : packet.serialize t with
    | error e =>
      simp only [sendPacketOnSocket, hbytes] at h
      cases h
    | ok bytes =>
      simp only [sendPacketOnSocket, sendPacketInterrupted, hbytes] at h ⊢
      cases h
      exact ⟨rfl, fun _ h => by cases h⟩
  step _ _ _ _ hx h := sender_step hlibc hx h
  result _ _ h := h

theorem resumeWith_eq (point : RecvPoint) (got : Received) :
    point.resumeWith t got.bytes (point.fdsSoFar ++ got.fds) got.fds.length =
      point.resume t (.ok got) := by
  cases point with
  | header fixedBuf fds =>
    simp only [RecvPoint.resumeWith, RecvPoint.resume, RecvPoint.fdsSoFar, List.length_eq_zero_iff]
  | payload _ _ _ _ _ => rfl
  | returned _ => rfl

theorem receiver_step (hlibc : libc.Documented t) {Interrupts : RecvPoint → Prop}
    {x x' : SocketReceiver} {net net' : Incoming}
    (h : SocketReceiverStep kernel libc t Interrupts x net x' net') :
    (x'.point = x.point ∧ net' = net) ∨
      ReceiverStep kernel t Interrupts x.point net x'.point net' := by
  cases h with
  | readable _ | wouldBlock => exact .inl ⟨rfl, rfl⟩
  | received hlen hrecv hread =>
    obtain ⟨hrecv, hholds, hfds⟩ := hrecv
    cases recvControl_eq hlibc hholds hread
    rw [hfds, resumeWith_eq]
    exact .inr (.received hlen hrecv)
  | crashed _ hrecv hcrash =>
    obtain ⟨_, hholds, _⟩ := hrecv
    cases recvControl_eq hlibc hholds hcrash
  | failed e hpending hinterrupts => exact .inr (.failed e hpending hinterrupts)
  | dropped hpending hinterrupts => exact .inr (.dropped hpending hinterrupts)

/-- So does `recv_packet`. -/
theorem receiver_refines (hlibc : libc.Documented t) (Interrupts : RecvPoint → Prop) :
    Refines (recvPacketOnSocket kernel libc t Interrupts)
      (recvPacketInterrupted kernel t Interrupts) SocketReceiver.point fun _ => True where
  enter_inl _ _ h := by cases h
  enter_inr _ _ h := by
    cases h
    exact ⟨rfl, trivial⟩
  step _ _ _ _ _ h := ⟨trivial, receiver_step hlibc h⟩
  result _ _ h := h

end Refinements

/-! ## The connection over system calls -/

section Connection

variable {kernel : Kernel} {libc : Libc} {t : Target} {Task : Type} [DecidableEq Task]

/-- Whatever the interleaving, however often the calls would have blocked and
however short they were: if failures and drops spare the calls that have sent a
part of their frame, the wire holds the frames of the calls that returned `Ok`,
each whole and with its descriptors, in lock order, and a part of one more. A
call whose descriptors do not fit into a control message panics before it has
sent anything. -/
theorem sends_on_socket (hlibc : libc.Documented t) {Interrupts : SendPoint → Prop}
    (hspare : SparesBegunFrames t Interrupts)
    {s : State (sendPacketOnSocket libc t Interrupts) Task}
    (hrun : ReflTransGen CancelStep (.init (sendPacketOnSocket libc t Interrupts) Task []) s) :
    (∃ p part, s.resource = okFrames t s.finished ++ part ∧ part <+: sentCells t p) ∧
    (s.holder = none → s.resource = okFrames t s.finished) := by
  have hspare' : SparesBegunFrames t (OrTooManyFds t Interrupts) := by
    rintro p bytes totalSent hbytes hpos hlt (hinterrupts | ⟨_, _, hfirst, _⟩)
    · exact hspare p bytes totalSent hbytes hpos hlt hinterrupts
    · cases hfirst
  obtain ⟨_, hover⟩ := run_of_refines (sender_refines hlibc Interrupts) hrun
  refine ⟨(intact_of_spares hspare' hover).wire, fun hfree => ?_⟩
  exact (okFrames_of_history hspare' ((serialized_of_cancel hover).free hfree)).1

/-- Whatever the interleaving, however often the calls would have blocked and
however short they were: if failures and drops spare the calls that have
received some of a frame, the calls that returned `Ok` returned the packets on
the stream, one after the other, each with the descriptors that are handed over
with it; and with the lock free, the rest of the stream is the packets that
remain. -/
theorem receives_on_socket (hlibc : libc.Documented t) {Interrupts : RecvPoint → Prop}
    (hspare : SparesBegunReceives kernel t Interrupts) {ps : List Packet}
    (hps : ∀ p ∈ ps, p.Sendable) {closed : Bool}
    {s : State (recvPacketOnSocket kernel libc t Interrupts) Task}
    (hrun : ReflTransGen CancelStep
      (.init (recvPacketOnSocket kernel libc t Interrupts) Task
        ⟨ps.flatMap (sentCells t), closed⟩) s) :
    okPackets s.finished = (kernel.received ps).take (okPackets s.finished).length ∧
    (s.holder = none → s.resource =
      ⟨(kernel.remaining ps (okPackets s.finished).length).flatMap (sentCells t), closed⟩) := by
  obtain ⟨_, hover⟩ := run_of_refines (receiver_refines hlibc Interrupts) hrun
  have hinstep := inStep_of_spares hspare hps hover
  exact ⟨hinstep.answers, hinstep.stream⟩

end Connection

/-- A packet with a descriptor, sent after a `sendmsg` that would have
blocked. -/
theorem sends_on_socket_one :
    ∃ s : State (sendPacketOnSocket (.linux ⟨.little, .w64⟩) ⟨.little, .w64⟩ fun _ => False) Bool,
      s.finished = [(true, ⟨.ofNat 2, 0, [1, 2, 3, 4], [5]⟩, ⟨some (.ok ()), 12⟩)] ∧
      ∃ p part, s.resource = okFrames ⟨.little, .w64⟩ s.finished ++ part ∧
        part <+: sentCells ⟨.little, .w64⟩ p := by
  let t : Target := ⟨.little, .w64⟩
  let p : Packet := ⟨.ofNat 2, 0, [1, 2, 3, 4], [5]⟩
  have hfits : SpaceFits t p.fds.length := by decide
  obtain ⟨control, hcontrol, hholds⟩ := sendControl_of_fits (linux_documented t) hfits
  have hmessages : [messageOf (.linux t) t p.fds hfits].flatMap (Message.fds (.linux t)) = [5] := by
    rw [List.flatMap_singleton, messageOf_fds]
  have hsent : Sendmsg (.linux t) t (p.frame t) control [] 12 ([] ++ attach [5] (p.frame t)) := by
    refine .sent hholds ?_
    rw [hmessages]
    exact .sent (n := 12) (by decide) (by decide)
  have hmoves : ReflTransGen (sendPacketOnSocket (.linux t) t fun _ => False).move
      (⟨⟨some (.first (p.frame t) p.fds), 0⟩, none, false⟩, [])
      (⟨⟨some (.returned (.ok ())), 0 + 12⟩, none, false⟩, [] ++ attach [5] (p.frame t)) := by
    refine .head (b := (_, [])) (SocketSenderStep.assembled hcontrol) ?_
    refine .head (b := (_, [])) (SocketSenderStep.writable (Option.some_ne_none _)) ?_
    refine .head (b := (_, [])) SocketSenderStep.wouldBlock ?_
    refine .head (b := (_, [])) (SocketSenderStep.writable (Option.some_ne_none _)) ?_
    exact .single (SocketSenderStep.sentWithFds hsent)
  obtain ⟨s, hrun, hfin, _⟩ := exists_run_of_call
    (s := .init (sendPacketOnSocket (.linux t) t fun _ => False) Bool []) (t := true) (c := p)
    trivial rfl (by rfl) hmoves rfl
  refine ⟨s, hfin, ?_⟩
  exact (sends_on_socket (linux_documented t) (fun _ _ _ _ _ _ h => h)
    (cancelSteps_of_steps hrun)).1

/-- A packet is received in two parts, after a `recvmsg` that would have
blocked. -/
theorem receives_on_socket_one :
    ∃ s : State
        (recvPacketOnSocket .linux (.linux ⟨.little, .w64⟩) ⟨.little, .w64⟩ fun _ => False) Bool,
      s.finished = [(true, (), some (.ok wordPacket))] ∧
      okPackets s.finished =
        (Kernel.linux.received [wordPacket]).take (okPackets s.finished).length := by
  let t : Target := ⟨.little, .w64⟩
  let cells := sentCells t wordPacket
  let control : Msghdr := ⟨[], 0, le_rfl⟩
  have hholds : control.Holds ([] : List (Message t)) := Laid.nil
  obtain ⟨fuel, hfuel⟩ := yields_of_holds (linux_documented t) hholds []
  have hread : recvControl (.linux t) t control fuel [] = some (.ok ([], 0)) := hfuel fuel le_rfl
  -- the header, and then the payload
  have hdata₁ : Receive .linux 8 ⟨cells.take 8 ++ cells.drop 8, false⟩ ⟨bytesOf (cells.take 8), []⟩
      ⟨cells.drop 8, false⟩ := .data (by decide) (by decide)
  rw [List.take_append_drop] at hdata₁
  have hrecv₁ : Recvmsg .linux (.linux t) t 8 ⟨cells, false⟩ (bytesOf (cells.take 8)) control
      ⟨cells.drop 8, false⟩ := .received hdata₁ hholds rfl
  have hpoint₁ : RecvPoint.start.resumeWith t (bytesOf (cells.take 8)) [] 0 =
      .payload (.ofNat 2) 0 4 [] [] := by decide
  have hdata₂ : Receive .linux 4 ⟨cells.drop 8, false⟩ ⟨bytesOf (cells.drop 8), []⟩ ⟨[], false⟩ :=
    .all (by decide) (by decide)
  have hrecv₂ : Recvmsg .linux (.linux t) t 4 ⟨cells.drop 8, false⟩ (bytesOf (cells.drop 8)) control
      ⟨[], false⟩ := .received hdata₂ hholds rfl
  have hpoint₂ : (RecvPoint.payload (.ofNat 2) 0 4 [] []).resumeWith t (bytesOf (cells.drop 8)) [] 0
      = .returned (.ok wordPacket) := by decide
  have hmoves : ReflTransGen (recvPacketOnSocket .linux (.linux t) t fun _ => False).move
      (⟨some .start, false⟩, ⟨cells, false⟩)
      (⟨some (.returned (.ok wordPacket)), false⟩, ⟨[], false⟩) := by
    refine .head (b := (_, _)) (SocketReceiverStep.readable (Option.some_ne_none _)) ?_
    refine .head (b := (_, _)) SocketReceiverStep.wouldBlock ?_
    refine .head (b := (_, _)) (SocketReceiverStep.readable (Option.some_ne_none _)) ?_
    refine .head (b := (_, _)) (SocketReceiverStep.received rfl hrecv₁ hread) ?_
    rw [hpoint₁]
    refine .head (b := (_, _)) (SocketReceiverStep.readable (Option.some_ne_none _)) ?_
    rw [← hpoint₂]
    exact .single (SocketReceiverStep.received rfl hrecv₂ hread)
  obtain ⟨s, hrun, hfin, _⟩ := exists_run_of_call
    (s := .init (recvPacketOnSocket .linux (.linux t) t fun _ => False) Bool
      ⟨[wordPacket].flatMap (sentCells t), false⟩) (t := true) (c := ())
    (o := some (.ok wordPacket)) trivial rfl rfl hmoves (by rfl)
  refine ⟨s, hfin, ?_⟩
  exact (receives_on_socket (linux_documented t) (fun _ _ h => h) (by decide)
    (cancelSteps_of_steps hrun)).1

end WhaleLand
