import WhaleLand.PacketStream
import WhaleLand.SendPacket

/-!
# Both ends of a connection

One process sends packets, the other receives them. Any number of tasks call
`send_packet` on the one end, any number call `recv_packet` on the other, and
all their steps interleave. What is sent is there to be received; the sending
end is closed at some point when no call is using it, or never.

The receiving end is always in a state that it could have reached with all
that has been sent so far waiting for it (`Linked`). So what is known about
one call at a frame is enough: the packets come out in the order in which they
took the lock of the sending end (`received_as_accepted`), and a call is bound
to return the next one under exactly the conditions of `delivered_iff`.
-/

namespace WhaleLand

open Relation Transition CriticalSection

/-! ## Longer streams -/

section Longer

variable {kernel : Kernel} {t : Target} {Task : Type} [DecidableEq Task]

/-- The states that are reached on an open stream are reached if it has more
bytes in the end, and if it is closed in the end. -/
theorem run_feed {cells : List Cell} {s : CriticalSection.State (recvPacket kernel t) Task}
    (new : List Cell)
    (h : ReflTransGen Step (.init (recvPacket kernel t) Task ⟨cells, false⟩) s) :
    ReflTransGen Step (.init (recvPacket kernel t) Task ⟨cells ++ new, false⟩)
      { s with resource := s.resource.feed new } := by
  refine (run_of_resource (R := recvPacket kernel t) (fun net => net.closed = false) (·.feed new) ?_
    rfl h).1
  rintro point net point' net' hnet ⟨len, got, hlen, hrecv, hpoint⟩
  exact ⟨⟨len, got, hlen, hrecv.feed new hnet, hpoint⟩, hrecv.closed_eq.trans hnet⟩

theorem run_close {cells : List Cell} {s : CriticalSection.State (recvPacket kernel t) Task}
    (h : ReflTransGen Step (.init (recvPacket kernel t) Task ⟨cells, false⟩) s) :
    ReflTransGen Step (.init (recvPacket kernel t) Task ⟨cells, true⟩)
      { s with resource := s.resource.close } := by
  refine (run_of_resource (R := recvPacket kernel t) (fun net => net.closed = false) .close ?_
    rfl h).1
  rintro point net point' net' hnet ⟨len, got, hlen, hrecv, hpoint⟩
  exact ⟨⟨len, got, hlen, hrecv.close hnet, hpoint⟩, hrecv.closed_eq.trans hnet⟩

end Longer

/-! ## The two ends -/

/-- The sending end with its wire, and the receiving end with what it has still
to receive. -/
structure Channel (kernel : Kernel) (t : Target) (Sender Receiver : Type) where
  sending : CriticalSection.State (sendPacket t) Sender
  receiving : CriticalSection.State (recvPacket kernel t) Receiver

namespace Channel

variable {kernel : Kernel} {t : Target} {Sender Receiver : Type}

/-- Nobody has called yet, and nothing has been sent. -/
def opened (kernel : Kernel) (t : Target) (Sender Receiver : Type) :
    Channel kernel t Sender Receiver where
  sending := .init (sendPacket t) Sender []
  receiving := .init (recvPacket kernel t) Receiver ⟨[], false⟩

/-- The sending end has been closed. -/
def closed (c : Channel kernel t Sender Receiver) : Bool := c.receiving.resource.closed

/-- The stream of the receiving end changes. -/
def arrive (c : Channel kernel t Sender Receiver) (f : Incoming → Incoming) :
    Channel kernel t Sender Receiver :=
  { c with receiving := { c.receiving with resource := f c.receiving.resource } }

/-- The packet of the call that holds the lock of the sending end. -/
def inProgress (c : Channel kernel t Sender Receiver) : List Packet :=
  match c.sending.holder.map c.sending.phase with
  | some (.inside p _) => [p]
  | _ => []

/-- The packets that have taken the lock of the sending end, in this order. -/
def accepted (c : Channel kernel t Sender Receiver) : List Packet :=
  c.sending.finished.map (fun call => call.2.1) ++ c.inProgress

end Channel

/-- One step of one task, or the end of the sending side: a connection is
dropped when no call borrows it any longer. -/
inductive ChannelStep {kernel : Kernel} {t : Target} {Sender Receiver : Type} [DecidableEq Sender]
    [DecidableEq Receiver] :
    Channel kernel t Sender Receiver → Channel kernel t Sender Receiver → Prop
  | send {c : Channel kernel t Sender Receiver}
      {sending' : CriticalSection.State (sendPacket t) Sender} {new : List Cell} :
      c.closed = false → Step c.sending sending' → sending'.resource = c.sending.resource ++ new →
      ChannelStep c { c.arrive (·.feed new) with sending := sending' }
  | receive {c : Channel kernel t Sender Receiver}
      {receiving' : CriticalSection.State (recvPacket kernel t) Receiver} :
      Step c.receiving receiving' → ChannelStep c { c with receiving := receiving' }
  | close {c : Channel kernel t Sender Receiver} :
      (∀ task, (c.sending.phase task).Free) → ChannelStep c (c.arrive .close)

/-! ## The ends are linked -/

section Linked

variable {kernel : Kernel} {t : Target} {Sender Receiver : Type} [DecidableEq Sender]
  [DecidableEq Receiver]

/-- The receiving end could have come to where it is with the whole wire
waiting for it. Once the stream is closed, nobody is sending. -/
structure Linked (c : Channel kernel t Sender Receiver) : Prop where
  sends : ReflTransGen Step (.init (sendPacket t) Sender []) c.sending
  receives : ReflTransGen Step
    (.init (recvPacket kernel t) Receiver ⟨c.sending.resource, c.closed⟩) c.receiving
  quiet : c.closed = true → c.sending.holder = none

theorem closed_of_step {s s' : CriticalSection.State (recvPacket kernel t) Receiver}
    (h : Step s s') :
    s'.resource.closed = s.resource.closed := by
  cases h with
  | call _ | acquire _ _ | release _ _ => rfl
  | work _ hstep =>
    obtain ⟨_, _, _, hrecv, _⟩ := hstep
    exact hrecv.closed_eq

/-- A lock is not held by a task that is not in a call. -/
theorem holder_eq_none_of_free {s : CriticalSection.State (sendPacket t) Sender}
    (hrun : ReflTransGen Step (.init (sendPacket t) Sender []) s)
    (hfree : ∀ task, (s.phase task).Free) : s.holder = none := by
  cases hholder : s.holder with
  | none => rfl
  | some task =>
    obtain ⟨_, _, _, _, hin, _⟩ := (serialized hrun).held task hholder
    have hidle := hfree task
    rw [hin] at hidle
    cases hidle

theorem linked_opened : Linked (Channel.opened kernel t Sender Receiver) where
  sends := .refl
  receives := .refl
  quiet h := by cases h

theorem linked_step {c c' : Channel kernel t Sender Receiver} (hc : Linked c)
    (h : ChannelStep c c') : Linked c' := by
  cases h with
  | @send sending' new hopen hstep hwire =>
    refine ⟨hc.sends.tail hstep, ?_, fun hclosed => ?_⟩
    · have hreceives := hc.receives
      rw [hopen] at hreceives
      have hfed := run_feed new hreceives
      rw [← hwire, ← hopen] at hfed
      exact hfed
    · exact absurd (hopen.symm.trans hclosed) Bool.false_ne_true
  | @receive receiving' hstep =>
    have hclosed := closed_of_step hstep
    refine ⟨hc.sends, ?_, fun h => hc.quiet (hclosed.symm.trans h)⟩
    have hreceives := hc.receives.tail hstep
    rwa [Channel.closed, ← hclosed] at hreceives
  | close hfree =>
    refine ⟨hc.sends, ?_, fun _ => holder_eq_none_of_free hc.sends hfree⟩
    have hreceives := hc.receives
    cases hclosed : c.closed with
    | false =>
      rw [hclosed] at hreceives
      exact run_close hreceives
    | true =>
      have hsame : c.arrive .close = c := by
        have hnet : c.receiving.resource.close = c.receiving.resource := by
          rw [Incoming.close, ← show c.receiving.resource.closed = true from hclosed]
        rw [Channel.arrive, hnet]
      rw [hsame]
      exact hreceives

theorem linked {c : Channel kernel t Sender Receiver}
    (hrun : ReflTransGen ChannelStep (.opened kernel t Sender Receiver) c) : Linked c := by
  induction hrun with
  | refl => exact linked_opened
  | tail _ hlast ih => exact linked_step ih hlast

/-- The wire holds the accepted packets, but for a part of the last one that
is still to be sent. -/
theorem wire_of_accepted {c : Channel kernel t Sender Receiver} (hc : Linked c) :
    ∃ unsent, c.sending.resource ++ unsent = c.accepted.flatMap (sentCells t) ∧
      (c.closed = true → unsent = []) ∧ ∀ p ∈ c.accepted, p.Sendable := by
  have hserial := serialized hc.sends
  have hsendable : ∀ {calls : List (Sender × Packet × Except Error Unit)} {wire : List Cell},
      History (sendPacket t) [] calls wire →
      ∀ p ∈ calls.map (fun call => call.2.1), p.Sendable := by
    intro calls wire hhist p hp
    obtain ⟨call, hcall, rfl⟩ := List.mem_map.mp hp
    obtain ⟨_, bytes, hbytes⟩ := (wire_of_history hhist).2 call hcall
    exact (Packet.serialize_eq_ok.mp hbytes).1
  cases hholder : c.sending.holder with
  | none =>
    have hhist := hserial.free hholder
    have haccepted : c.accepted = c.sending.finished.map (fun call => call.2.1) := by
      simp [Channel.accepted, Channel.inProgress, hholder]
    refine ⟨[], ?_, fun _ => rfl, haccepted ▸ hsendable hhist⟩
    rw [List.append_nil, haccepted, List.flatMap_map]
    exact (wire_of_history hhist).1
  | some task =>
    obtain ⟨p, point₀, point, wire, hin, henter, hhist, hmoves⟩ := hserial.held task hholder
    obtain ⟨bytes, sent, hbytes, hwire, ⟨unsent, hunsent⟩, _⟩ := sent_of_moves henter hmoves
    have haccepted : c.accepted = c.sending.finished.map (fun call => call.2.1) ++ [p] := by
      simp [Channel.accepted, Channel.inProgress, hholder, hin]
    refine ⟨unsent, ?_, fun hclosed => ?_, ?_⟩
    · have hwire : c.sending.resource = wire ++ sent := hwire
      rw [hwire, haccepted, (wire_of_history hhist).1, List.append_assoc, hunsent,
        List.flatMap_append, List.flatMap_map, List.flatMap_singleton]
      rfl
    · rw [hc.quiet hclosed] at hholder
      cases hholder
    · rw [haccepted]
      intro q hq
      rcases List.mem_append.mp hq with hq | hq
      · exact hsendable hhist q hq
      · rw [List.mem_singleton.mp hq]
        exact (Packet.serialize_eq_ok.mp hbytes).1

end Linked

/-! ## Runs of one end -/

section OneEnd

variable {kernel : Kernel} {t : Target} {Sender Receiver : Type} [DecidableEq Sender]
  [DecidableEq Receiver]

theorem resource_of_sends {s s' : CriticalSection.State (sendPacket t) Sender}
    (h : ReflTransGen Step s s') : ∃ new, s'.resource = s.resource ++ new := by
  induction h with
  | refl => exact ⟨[], (List.append_nil _).symm⟩
  | tail _ hlast ih =>
    obtain ⟨new, hnew⟩ := ih
    cases hlast with
    | call _ | acquire _ _ | release _ _ => exact ⟨new, hnew⟩
    | work _ hstep =>
      obtain ⟨data, fds, _, _, ⟨_, _⟩, _⟩ := hstep
      exact ⟨new ++ attach fds (data.take _), by rw [hnew, List.append_assoc]⟩

/-- While the stream is open, the sending end can go on by itself. -/
theorem channelSteps_of_sends {c : Channel kernel t Sender Receiver}
    {sending' : CriticalSection.State (sendPacket t) Sender} (hopen : c.closed = false)
    (h : ReflTransGen Step c.sending sending') :
    ∃ new, sending'.resource = c.sending.resource ++ new ∧
      ReflTransGen ChannelStep c { c.arrive (·.feed new) with sending := sending' } := by
  induction h with
  | refl =>
    refine ⟨[], (List.append_nil _).symm, ?_⟩
    simp only [Channel.arrive, Incoming.feed_nil]
    exact .refl
  | @tail b d hrun hlast ih =>
    obtain ⟨new, hwire, hsteps⟩ := ih
    obtain ⟨last, hlastWire⟩ := resource_of_sends (.single hlast)
    refine ⟨new ++ last, by rw [hlastWire, hwire, List.append_assoc], ?_⟩
    have hstep := hsteps.tail (.send hopen hlast hlastWire)
    simpa only [Channel.arrive, Incoming.feed, List.append_assoc] using hstep

/-- So can the receiving end. -/
theorem channelSteps_of_receives {c : Channel kernel t Sender Receiver}
    {receiving' : CriticalSection.State (recvPacket kernel t) Receiver}
    (h : ReflTransGen Step c.receiving receiving') :
    ReflTransGen ChannelStep c { c with receiving := receiving' } := by
  induction h with
  | refl => exact .refl
  | tail _ hlast ih => exact ih.tail (.receive hlast)

/-- A packet can be sent at once. -/
theorem exists_sent_one {c : Channel kernel t Sender Receiver} {p : Packet} (hp : p.Sendable)
    {sender : Sender} (hopen : c.closed = false) (hlock : c.sending.holder = none)
    (hfree : (c.sending.phase sender).Free) :
    ∃ c' : Channel kernel t Sender Receiver, ReflTransGen ChannelStep c c' ∧
      c'.sending.finished = c.sending.finished ++ [(sender, p, .ok ())] ∧
      c'.sending.holder = none ∧ (c'.sending.phase sender).Free ∧
      c'.receiving = (c.arrive (·.feed (sentCells t p))).receiving := by
  have hall : SendPoint.loop (p.frame t) (p.frame t).length = .returned (.ok ()) :=
    if_neg (Nat.lt_irrefl _)
  have hmove : (sendPacket t).move (.first (p.frame t) p.fds, c.sending.resource)
      (.returned (.ok ()),
        c.sending.resource ++ attach p.fds ((p.frame t).take (p.frame t).length)) := by
    refine ⟨_, _, _, rfl, .sent ?_ le_rfl, hall.symm⟩
    exact List.length_pos_iff.mpr (Packet.frame_ne_nil t p)
  obtain ⟨sending, hrun, hfin, hwire, hholder, hfree'⟩ := exists_run_of_call (c := p) hfree hlock
    (by simp only [sendPacket, Packet.serialize_of_sendable hp]) (.single hmove) rfl
  obtain ⟨new, hnew, hsteps⟩ := channelSteps_of_sends hopen hrun
  rw [hwire, List.take_length, ← sentCells_of_sendable hp] at hnew
  obtain rfl : sentCells t p = new := List.append_cancel_left hnew
  exact ⟨_, hsteps, hfin, hholder, hfree', rfl⟩

/-- So can several, one after the other. -/
theorem exists_sent {ps : List Packet} (hps : ∀ p ∈ ps, p.Sendable) (sender : Sender) :
    ∃ c : Channel kernel t Sender Receiver,
      ReflTransGen ChannelStep (.opened kernel t Sender Receiver) c ∧ c.accepted = ps ∧
      c.sending.resource = ps.flatMap (sentCells t) ∧
      c.receiving = .init (recvPacket kernel t) Receiver ⟨ps.flatMap (sentCells t), false⟩ := by
  -- from any state with the lock free
  have hsent : ∀ c : Channel kernel t Sender Receiver, c.closed = false →
      c.sending.holder = none → (c.sending.phase sender).Free →
      ∃ c' : Channel kernel t Sender Receiver, ReflTransGen ChannelStep c c' ∧
        c'.sending.finished = c.sending.finished ++ ps.map (fun p => (sender, p, .ok ())) ∧
        c'.sending.holder = none ∧
        c'.receiving = (c.arrive (·.feed (ps.flatMap (sentCells t)))).receiving := by
    induction ps with
    | nil =>
      intro c _ hlock _
      refine ⟨c, .refl, (List.append_nil _).symm, hlock, ?_⟩
      simp only [Channel.arrive, List.flatMap_nil, Incoming.feed_nil]
    | cons p ps ih =>
      obtain ⟨hp, hps⟩ := List.forall_mem_cons.mp hps
      intro c hopen hlock hfree
      obtain ⟨c₁, hrun₁, hfin₁, hlock₁, hfree₁, hreceiving₁⟩ := exists_sent_one hp hopen hlock hfree
      have hopen₁ : c₁.closed = false := by
        rw [Channel.closed, hreceiving₁]
        exact hopen
      obtain ⟨c₂, hrun₂, hfin₂, hlock₂, hreceiving₂⟩ := ih hps c₁ hopen₁ hlock₁ hfree₁
      refine ⟨c₂, hrun₁.trans hrun₂, ?_, hlock₂, ?_⟩
      · rw [hfin₂, hfin₁, List.append_assoc]
        rfl
      · rw [hreceiving₂, Channel.arrive, Channel.arrive, hreceiving₁]
        simp only [Channel.arrive, Incoming.feed, List.flatMap_cons, List.append_assoc]
  obtain ⟨c, hrun, hfin, hlock, hreceiving⟩ :=
    hsent (.opened kernel t Sender Receiver) rfl rfl trivial
  have haccepted : c.accepted = ps := by
    simp [Channel.accepted, Channel.inProgress, hlock, hfin, Channel.opened, State.init,
      Function.comp_def]
  have hwire := (serialized (linked hrun).sends).free hlock
  refine ⟨c, hrun, haccepted, ?_, hreceiving⟩
  rw [(wire_of_history hwire).1, hfin, wireOf, Channel.opened, State.init, List.nil_append,
    List.flatMap_map]

/-- Packets of which the last one has a payload can be received one after the
other. -/
theorem exists_received {ps : List Packet} (hps : ∀ p ∈ ps, p.Sendable)
    (hlast : ∀ p, ps.getLast? = some p → p.payload ≠ []) (receiver : Receiver) {i : Nat}
    (hi : i ≤ ps.length) :
    ∃ s : State (recvPacket kernel t) Receiver,
      ReflTransGen Step (.init (recvPacket kernel t) Receiver ⟨ps.flatMap (sentCells t), false⟩) s ∧
      s.finished = ((kernel.received ps).take i).map (fun q => (receiver, (), .ok q)) ∧
      s.resource = ⟨(kernel.remaining ps i).flatMap (sentCells t), false⟩ ∧ s.holder = none ∧
      (s.phase receiver).Free := by
  induction i with
  | zero =>
    refine ⟨_, .refl, rfl, ?_, rfl, trivial⟩
    rw [Kernel.remaining_zero]
    rfl
  | succ i ih =>
    obtain ⟨s, hrun, hfin, hnet, hlock, hfree⟩ := ih (Nat.le_of_succ_le hi)
    have hp := List.getElem?_eq_getElem hi
    have hsendable : ps[i].Sendable := hps _ (List.getElem_mem hi)
    let left : Packet := { ps[i] with fds := kernel.fdsLeft ps i }
    have hmore : left.payload ≠ [] ∨ (ps.drop (i + 1)).flatMap (sentCells t) ≠ [] ∨
        false = true := by
      rcases Nat.lt_or_ge (i + 1) ps.length with hlt | hge
      · refine .inr (.inl fun hnil => ?_)
        rw [List.drop_eq_getElem_cons hlt, List.flatMap_cons,
          sentCells_of_sendable (hps _ (List.getElem_mem hlt)), List.append_eq_nil_iff] at hnil
        have hframe := congrArg bytesOf hnil.1
        rw [bytesOf_attach] at hframe
        exact Packet.frame_ne_nil t _ hframe
      · refine .inl (hlast ps[i] ?_)
        rw [List.getLast?_eq_getElem?, ← hp]
        congr 1
        omega
    have hreturns : Inevitable (recvMove kernel t) _ _ :=
      inevitable_packet (p := left) hsendable hmore
    obtain ⟨_, hmoves, hends⟩ := hreturns.exists_end
    cases hreturns.post _ hmoves hends
    have hstream : s.resource =
        ⟨sentCells t left ++ (ps.drop (i + 1)).flatMap (sentCells t), false⟩ := by
      rw [hnet, Kernel.remaining_of_getElem? hp, List.flatMap_cons]
    rw [← hstream] at hmoves
    obtain ⟨s', hrun', hfin', hnet', hlock', hfree'⟩ :=
      exists_run_of_call (c := ()) hfree hlock rfl hmoves rfl
    refine ⟨s', hrun.trans hrun', ?_, ?_, hlock', hfree'⟩
    · have hreceived : (kernel.received ps)[i]? =
          some (ps[i].asReceived (kernel.handedOver ps i)) := by
        rw [Kernel.getElem?_received, hp]
        rfl
      rw [hfin', hfin, List.take_add_one, hreceived, List.map_append,
        ← fdsBehind_packet (t := t) hps hp]
      rfl
    · rw [hnet', ← restBehind_packet hps hp]

/-- Such packets can be sent and then received. -/
theorem exists_delivered {ps : List Packet} (hps : ∀ p ∈ ps, p.Sendable)
    (hlast : ∀ p, ps.getLast? = some p → p.payload ≠ []) (sender : Sender) (receiver : Receiver) :
    ∃ c : Channel kernel t Sender Receiver,
      ReflTransGen ChannelStep (.opened kernel t Sender Receiver) c ∧ c.accepted = ps ∧
      c.receiving.finished = (kernel.received ps).map fun q => (receiver, (), .ok q) := by
  obtain ⟨c, hrun, haccepted, _, hreceiving⟩ :
    ∃ c : Channel kernel t Sender Receiver, _ := exists_sent hps sender
  obtain ⟨s, hreceives, hfin, _⟩ : ∃ s : State (recvPacket kernel t) Receiver, _ :=
    exists_received hps hlast receiver le_rfl
  rw [← hreceiving] at hreceives
  refine ⟨_, hrun.trans (channelSteps_of_receives hreceives), haccepted, ?_⟩
  rw [hfin, List.take_of_length_le (Kernel.length_received).le]

/-- So can one packet with a payload. -/
theorem exists_delivered_one {p : Packet} (hp : p.Sendable) (hpayload : p.payload ≠ [])
    (sender : Sender) (receiver : Receiver) :
    ∃ c : Channel kernel t Sender Receiver,
      ReflTransGen ChannelStep (.opened kernel t Sender Receiver) c ∧ c.accepted = [p] ∧
      c.receiving.finished = [(receiver, (), .ok (p.asReceived p.fds))] := by
  have hps : ∀ q ∈ [p], q.Sendable := by simpa using hp
  have hlast : ∀ q, [p].getLast? = some q → q.payload ≠ [] := by
    rintro _ ⟨rfl⟩
    exact hpayload
  obtain ⟨c, hrun, haccepted, hreceived⟩ : ∃ c : Channel kernel t Sender Receiver, _ :=
    exists_delivered hps hlast sender receiver
  refine ⟨c, hrun, haccepted, ?_⟩
  rw [hreceived, Kernel.received, List.mapIdx_singleton, Kernel.handedOver_single,
    List.map_singleton]

end OneEnd

/-! ## All calls of the receiving end -/

section Delivery

variable {kernel : Kernel} {t : Target} {ps : List Packet} {unsent : List Cell} {closed : Bool}

/-- The stream is at the `i`-th packet, with the cells that are unsent still to
come. -/
structure AtPacket (kernel : Kernel) (t : Target) (ps : List Packet) (unsent : List Cell)
    (closed : Bool) (i : Nat) (net : Incoming) : Prop where
  stream : net.feed unsent = ⟨(kernel.remaining ps i).flatMap (sentCells t), closed⟩
  le_of_open : closed = false → i ≤ ps.length

/-- A stream to which nothing is to come is not changed, and the other streams
are open. -/
theorem moves_feed_unsent (hclosed : closed = true → unsent = []) {a b : RecvPoint × Incoming}
    (ha : a.2.closed = closed) (h : ReflTransGen (recvMove kernel t) a b) :
    ReflTransGen (recvMove kernel t) (a.1, a.2.feed unsent) (b.1, b.2.feed unsent) := by
  cases closed with
  | false => exact moves_feed unsent ha h
  | true =>
    rw [hclosed rfl, Incoming.feed_nil, Incoming.feed_nil]
    exact h

/-- What one call does, from lock to result. -/
theorem call_at_packet (hps : ∀ p ∈ ps, p.Sendable) (hclosed : closed = true → unsent = [])
    {i : Nat} {o : Except Error Packet} {point : RecvPoint} {net net' : Incoming}
    (hat : AtPacket kernel t ps unsent closed i net)
    (hmoves : ReflTransGen (recvMove kernel t) (.start, net) (point, net'))
    (hres : (recvPacket kernel t).result point = some o) :
    Answered kernel ps closed i o ∧ AtPacket kernel t ps unsent closed (i + 1) net' := by
  have hfed := moves_feed_unsent hclosed (congrArg Incoming.closed hat.stream) hmoves
  rw [hat.stream] at hfed
  obtain ⟨hanswered, hnet⟩ := call_in_order hps hfed hres
  refine ⟨hanswered, hnet, fun hopen => ?_⟩
  by_contra hlt
  have hend := (hanswered.atEnd (by omega)).1
  rw [hopen] at hend
  cases hend

variable {Sender Receiver : Type} [DecidableEq Sender] [DecidableEq Receiver]

/-- Every finished call of the receiving end was answered with its packet, and
the stream was left at the next one. -/
theorem history_at_packet {c : Channel kernel t Sender Receiver} (hc : Linked c) :
    ∃ unsent, c.sending.resource ++ unsent = c.accepted.flatMap (sentCells t) ∧
      (∀ net,
        History (recvPacket kernel t) ⟨c.sending.resource, c.closed⟩ c.receiving.finished net →
        AtPacket kernel t c.accepted unsent c.closed c.receiving.finished.length net ∧
        ∀ k task u o, c.receiving.finished[k]? = some (task, u, o) →
          Answered kernel c.accepted c.closed k o) ∧
      (c.closed = true → unsent = []) := by
  obtain ⟨unsent, hwire, hclosed, hps⟩ := wire_of_accepted hc
  refine ⟨unsent, hwire, fun net hhist => ?_, hclosed⟩
  refine hhist.indexed (AtPacket kernel t c.accepted unsent c.closed)
    (fun i _ o => Answered kernel c.accepted c.closed i o) ?_ ⟨?_, fun _ => Nat.zero_le _⟩
  · rintro i u o _ point net net' hat ⟨⟩ hmoves hres
    exact call_at_packet hps hclosed hat hmoves hres
  · rw [Incoming.feed, hwire, Kernel.remaining_zero]

/-- Whatever the interleaving of the tasks at both ends, however short the
sends and receives, and at any time: the `k`-th call of `recv_packet` to have
finished has returned the `k`-th packet that took the lock of the sending end,
with the descriptors that are handed over with it, and of its opcode the low
byte. No packet is lost, doubled or out of order. There are no more finished
calls than packets before the stream is closed; after that, the further ones
have failed with an unexpected end. -/
theorem received_as_accepted {c : Channel kernel t Sender Receiver}
    (hrun : ReflTransGen ChannelStep (.opened kernel t Sender Receiver) c) :
    (c.closed = false → c.receiving.finished.length ≤ c.accepted.length) ∧
    ∀ (k : Nat) (task : Receiver) (o : Except Error Packet),
      c.receiving.finished[k]? = some (task, (), o) →
      (∀ p, c.accepted[k]? = some p →
        o = .ok (p.asReceived (kernel.handedOver c.accepted k))) ∧
      (c.accepted.length ≤ k → c.closed = true ∧ o = .error (.io .unexpectedEof)) := by
  have hc := linked hrun
  obtain ⟨_, _, hdelivered, _⟩ := history_at_packet hc
  obtain ⟨net, hhist⟩ := (serialized hc.receives).exists_history
  obtain ⟨hat, hcalls⟩ := hdelivered net hhist
  refine ⟨hat.le_of_open, fun k task o hk => ?_⟩
  refine ⟨fun p hp => (hcalls k task () o hk).packet _ ?_, (hcalls k task () o hk).atEnd⟩
  rw [Kernel.getElem?_received, hp]
  rfl

end Delivery

/-- A packet without a payload, and one with a descriptor. -/
def emptyFirst : List Packet := [⟨.ofNat 2, 1, [], []⟩, ⟨.ofNat 3, 0, [1, 2, 3, 4], [5]⟩]

/-- On their way from one task to another: on Linux the first one comes with the
descriptor of the second. -/
theorem received_as_accepted_two :
    ∃ (c : Channel .linux ⟨.little, .w64⟩ Bool Bool) (o o' : Except Error Packet),
      c.receiving.finished = [(false, (), o), (false, (), o')] ∧
      o = .ok ⟨.ofNat 2, 1, [], [5]⟩ ∧ o' = .ok ⟨.ofNat 3, 0, [1, 2, 3, 4], []⟩ := by
  have hps : ∀ p ∈ emptyFirst, p.Sendable := by
    simp only [emptyFirst, List.forall_mem_cons]
    exact ⟨by decide, by decide, by simp⟩
  have hlast : ∀ p, emptyFirst.getLast? = some p → p.payload ≠ [] := by
    rintro _ ⟨rfl⟩
    decide
  obtain ⟨c, hrun, haccepted, hreceived⟩ : ∃ c : Channel .linux ⟨.little, .w64⟩ Bool Bool, _ :=
    exists_delivered hps hlast true false
  have hanswers := (received_as_accepted hrun).2
  have hfirst := (hanswers 0 false _ (by rw [hreceived]; rfl)).1 _ (by rw [haccepted]; rfl)
  have hsecond := (hanswers 1 false _ (by rw [hreceived]; rfl)).1 _ (by rw [haccepted]; rfl)
  rw [haccepted] at hfirst hsecond
  exact ⟨c, _, _, hreceived, hfirst.trans (by decide), hsecond.trans (by decide)⟩

/-! ## When the next packet is delivered -/

section Progress

variable {t : Target} {p : Packet}

/-- Every run of a call that has come to a packet without a payload, with
nothing behind it on an open stream, ends before it returns: the call waits for
a byte that is not part of the packet. -/
theorem inevitable_stalled (hp : p.Sendable) (hpayload : p.payload = []) :
    Inevitable (recvMove kernel t) (fun s => s.1.bufferLen ≠ none)
      (.start, ⟨sentCells t p, false⟩) := by
  have hbytes : bytesOf (sentCells t p) = p.header t ++ [] := by
    rw [sentCells_of_sendable hp, bytesOf_attach, frame_eq, hpayload]
  have hlen : (sentCells t p).length = 8 := by
    rw [← length_bytesOf, hbytes, List.append_nil, length_header]
  have hsize : packetSize t (bytesOf (sentCells t p)) = 8 := by
    rw [hbytes, packetSize_append hp, hpayload, List.length_nil]
  have hoid : ObjectId.new (headerObjectId t (bytesOf (sentCells t p))) = some p.objectId := by
    rw [hbytes, headerObjectId_append, ObjectId.new_val]
  have hwaits : Inevitable (recvMove kernel t) (fun s => s.1.bufferLen ≠ none)
      (.afterHeader t (bytesOf (sentCells t p)) (fdsOf (sentCells t p)), ⟨[], false⟩) := by
    refine .of_end (ends_stalled _) ?_
    simp [RecvPoint.afterHeader, hsize, hoid, RecvPoint.bufferLen]
  have hheader := inevitable_header hlen hwaits
  rwa [List.append_nil] at hheader

theorem not_inevitable_of_waits {s : RecvPoint × Incoming} {o : Except Error Packet}
    (h : Inevitable (recvMove kernel t) (fun s => s.1.bufferLen ≠ none) s) :
    ¬ Inevitable (recvMove kernel t) (fun s => s.1 = .returned o) s := by
  intro hreturns
  obtain ⟨e, hrun, hends⟩ := h.exists_end
  have hwaits := h.post e hrun hends
  rw [hreturns.post e hrun hends] at hwaits
  exact hwaits rfl

/-- A call somewhere in a packet that is on the stream as a whole, with `rest`
behind it, and `unsent` still to come. -/
theorem inevitable_iff_of_whole (hp : p.Sendable) {unsent rest : List Cell} {closed : Bool}
    (hclosed : closed = true → unsent = []) {point : RecvPoint} {net' : Incoming}
    (hmoves : ReflTransGen (recvMove kernel t) (.start, ⟨sentCells t p ++ rest, closed⟩)
      (point, net')) :
    Inevitable (recvMove kernel t)
        (fun s => s.1 = .returned (.ok (p.asReceived
          (p.fds ++ kernel.fdsBehind p.payload (rest ++ unsent)))))
        (point, net') ↔
      p.payload ≠ [] ∨ rest ≠ [] ∨ closed = true := by
  constructor
  · intro hreturns
    by_contra hnone
    obtain ⟨hpayload, hrest, hopen⟩ : p.payload = [] ∧ rest = [] ∧ closed = false := by
      simpa using hnone
    subst hrest hopen
    rw [List.append_nil] at hmoves
    exact not_inevitable_of_waits ((inevitable_stalled hp hpayload).of_run hmoves) hreturns
  · intro hmore
    -- what is still to come is behind a byte that is there
    have hbehind : kernel.fdsBehind p.payload (rest ++ unsent) =
        kernel.fdsBehind p.payload rest := by
      rcases hmore with hpayload | hrest | hclosed'
      · simp [hpayload]
      · simp only [Kernel.fdsBehind, kernel.earlyFds_append hrest]
      · rw [hclosed hclosed', List.append_nil]
    refine ((inevitable_packet hp hmore).of_run hmoves).mono ?_
    rintro _ rfl
    rw [hbehind]

/-- No call can be bound to return a packet of which a part has not been sent. -/
theorem not_inevitable_of_missing (hp : p.Sendable) {cells missing : List Cell}
    (hsplit : sentCells t p = cells ++ missing) (hmissing : missing ≠ []) {point : RecvPoint}
    {net' : Incoming} {o : Except Error Packet}
    (hmoves : ReflTransGen (recvMove kernel t) (.start, ⟨cells, false⟩) (point, net')) :
    ¬ Inevitable (recvMove kernel t) (fun s => s.1 = .returned o) (point, net') := by
  intro hreturns
  obtain ⟨⟨point', net''⟩, hrun, hends⟩ := hreturns.exists_end
  obtain rfl : point' = _ := hreturns.post _ hrun hends
  have hfed := moves_feed missing rfl (hmoves.trans hrun)
  simp only [Incoming.feed] at hfed
  rw [← hsplit, ← List.append_nil (sentCells t p)] at hfed
  -- the call would have left the missing part on the stream, and there is none
  obtain ⟨_, hnil⟩ := call_takes_packet hp hfed rfl
  simp [Kernel.restBehind, hmissing] at hnil

/-- A call somewhere in a packet of which `unsent` may still have to come, with
`more` behind the packet. -/
theorem inevitable_iff_of_call (hp : p.Sendable) {unsent more : List Cell} {closed : Bool}
    (hclosed : closed = true → unsent = []) {point : RecvPoint} {net net' : Incoming}
    (hnet : net.feed unsent = ⟨sentCells t p ++ more, closed⟩)
    (hmoves : ReflTransGen (recvMove kernel t) (.start, net) (point, net')) :
    Inevitable (recvMove kernel t)
        (fun s => s.1 = .returned (.ok (p.asReceived (p.fds ++ kernel.fdsBehind p.payload more))))
        (point, net') ↔
      unsent.length ≤ more.length ∧
        (p.payload ≠ [] ∨ unsent.length < more.length ∨ closed = true) := by
  obtain ⟨cells, closed'⟩ := net
  obtain ⟨hcells, rfl⟩ : cells ++ unsent = sentCells t p ++ more ∧ closed' = closed := by
    simpa [Incoming.feed] using hnet
  rcases List.append_eq_append_iff.mp hcells with ⟨missing, hsplit, rfl⟩ | ⟨rest, rfl, rfl⟩
  · by_cases hmissing : missing = []
    · subst hmissing
      rw [List.append_nil] at hsplit
      rw [← hsplit, ← List.append_nil (sentCells t p)] at hmoves
      refine (inevitable_iff_of_whole hp hclosed hmoves).trans ?_
      simp
    · obtain rfl : closed' = false := by
        cases closed' with
        | false => rfl
        | true => exact absurd (hclosed rfl) (by simp [hmissing])
      have hpos := List.length_pos_iff.mpr hmissing
      rw [iff_false_right (by rw [List.length_append]; omega)]
      exact not_inevitable_of_missing hp hsplit hmissing hmoves
  · rw [inevitable_iff_of_whole hp hclosed hmoves, List.length_append,
      and_iff_right (Nat.le_add_left _ _), Nat.lt_add_left_iff_pos, List.length_pos_iff]

variable {Sender Receiver : Type} [DecidableEq Sender] [DecidableEq Receiver]

/-- The length of the packets up to the one that the receiving end is at. -/
def Channel.needed (c : Channel kernel t Sender Receiver) : Nat :=
  ((c.accepted.take (c.receiving.finished.length + 1)).flatMap (sentCells t)).length

/-- Wherever a call that holds the lock of the receiving end has come to, with
the other end doing nothing more, it is bound to return its packet if and only
if the packet has been sent as a whole, and, for a packet without a payload,
something has been sent after it or the stream is closed. -/
theorem delivered_iff {c : Channel kernel t Sender Receiver}
    (hrun : ReflTransGen ChannelStep (.opened kernel t Sender Receiver) c) {task : Receiver}
    {point : RecvPoint} (hin : c.receiving.phase task = .inside () point)
    (hp : c.accepted[c.receiving.finished.length]? = some p) :
    Inevitable (recvMove kernel t)
        (fun s => s.1 = .returned (.ok (p.asReceived
          (kernel.handedOver c.accepted c.receiving.finished.length))))
        (point, c.receiving.resource) ↔
      c.needed ≤ c.sending.resource.length ∧
        (p.payload ≠ [] ∨ c.needed < c.sending.resource.length ∨ c.closed = true) := by
  have hc := linked hrun
  obtain ⟨unsent, hwire, hdelivered, hclosed⟩ := history_at_packet hc
  have hserial := serialized hc.receives
  obtain ⟨u, point₀, point', net, hin', henter, hhist, hmoves⟩ :=
    hserial.held task (hserial.exclusive task () point hin)
  rw [hin] at hin'
  cases hin'
  cases henter
  obtain ⟨hat, _⟩ := hdelivered net hhist
  obtain ⟨_, _, _, hps⟩ := wire_of_accepted hc
  let left : Packet := { p with fds := kernel.fdsLeft c.accepted c.receiving.finished.length }
  have hsendable : left.Sendable := hps p (List.mem_of_getElem? hp)
  have hstream := hat.stream
  rw [Kernel.remaining_of_getElem? hp, List.flatMap_cons] at hstream
  rw [← fdsBehind_packet (t := t) hps hp]
  refine (inevitable_iff_of_call hsendable hclosed hstream hmoves).trans ?_
  -- what is missing of the wire is missing of the packets behind this one
  have hlength := congrArg List.length hwire
  rw [← List.take_append_drop (c.receiving.finished.length + 1) c.accepted, List.flatMap_append,
    List.length_append, List.length_append] at hlength
  have hneeded : c.needed =
      ((c.accepted.take (c.receiving.finished.length + 1)).flatMap (sentCells t)).length := rfl
  have hle : unsent.length ≤
      ((c.accepted.drop (c.receiving.finished.length + 1)).flatMap (sentCells t)).length ↔
        c.needed ≤ c.sending.resource.length := by omega
  have hlt : unsent.length <
      ((c.accepted.drop (c.receiving.finished.length + 1)).flatMap (sentCells t)).length ↔
        c.needed < c.sending.resource.length := by omega
  rw [hle, hlt]

end Progress

/-- A packet without a payload has been sent, and the call that waits for it
cannot return it. -/
theorem delivered_iff_empty :
    ∃ c : Channel .linux ⟨.little, .w64⟩ Bool Bool,
      ¬ Inevitable (recvMove .linux ⟨.little, .w64⟩)
        (fun s => s.1 = .returned (.ok ((Packet.new .display 1).asReceived [])))
        (.start, c.receiving.resource) := by
  let p : Packet := .new .display 1
  have hps : ∀ q ∈ [p], q.Sendable := by
    simp only [List.forall_mem_cons]
    exact ⟨by decide, by simp⟩
  obtain ⟨c, hrun, haccepted, hwire, hreceiving⟩ :
      ∃ c : Channel .linux ⟨.little, .w64⟩ Bool Bool, _ := exists_sent hps true
  obtain ⟨receiving, hreceives, hin, hnet, hreceived⟩ := exists_run_of_enter
    (s := .init (recvPacket .linux ⟨.little, .w64⟩) Bool ⟨[p].flatMap (sentCells _), false⟩)
    (t := true) (c := ()) trivial rfl rfl
  rw [← hreceiving] at hreceives
  have hiff := delivered_iff (c := { c with receiving := receiving })
    (hrun.trans (channelSteps_of_receives hreceives)) hin (p := p)
    (by rw [hreceived]; exact congrArg (·[0]?) haccepted)
  have hfds : Kernel.linux.handedOver (Channel.accepted { c with receiving := receiving })
      receiving.finished.length = [] := by
    rw [hreceived]
    exact congrArg (Kernel.linux.handedOver · 0) haccepted
  rw [hfds] at hiff
  refine ⟨{ c with receiving := receiving }, fun h => ?_⟩
  obtain ⟨_, hpayload | hlt | hclosed⟩ := hiff.mp h
  · exact hpayload rfl
  · have hneeded : Channel.needed { c with receiving := receiving } =
        ([p].flatMap (sentCells ⟨.little, .w64⟩)).length := by
      rw [Channel.needed, hreceived]
      exact congrArg (fun ps => ((List.take 1 ps).flatMap (sentCells _)).length) haccepted
    rw [hneeded, ← hwire] at hlt
    exact absurd hlt (Nat.lt_irrefl _)
  · have hopen : Channel.closed { c with receiving := receiving } = false :=
      congrArg Incoming.closed hnet
    rw [hopen] at hclosed
    cases hclosed

end WhaleLand
