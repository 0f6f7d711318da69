import WhaleLand.Framing
import WhaleLand.StreamEnd

/-!
# Streams of packets

What successive calls of `recv_packet` return on a stream of packets. Each call
takes the bytes of one packet. For a packet without a payload it makes a receive
into an empty buffer, with which the kernel may hand over the descriptors of
the next packet; then they are returned with the packet in front of theirs
(`Kernel.handedOver`).

`call_in_order` is what one call does: it returns the next of the packets as
they are received (`Kernel.received`) and leaves those that remain
(`Kernel.remaining`).
-/

namespace WhaleLand

open Relation Transition CriticalSection

/-! ## What a receive can do with a longer stream -/

namespace Incoming

/-- More bytes have come. -/
def feed (net : Incoming) (new : List Cell) : Incoming := { net with cells := net.cells ++ new }

/-- The peer has closed the stream. -/
def close (net : Incoming) : Incoming := { net with closed := true }

@[simp] theorem feed_nil (net : Incoming) : net.feed [] = net := by
  simp [feed]

end Incoming

section Longer

variable {kernel : Kernel} {t : Target}

theorem Receive.feed {len : Nat} {net net' : Incoming} {got : Received} (new : List Cell)
    (hopen : net.closed = false) (h : Receive kernel len net got net') :
    Receive kernel len (net.feed new) got (net'.feed new) := by
  cases h with
  | data hne hle =>
    simp only [Incoming.feed, List.append_assoc]
    exact .data hne hle
  | emptyBuffer hzero hcells =>
    rw [← kernel.earlyFds_append hcells new, Incoming.feed, Incoming.feed,
      ← kernel.afterEarly_append hcells new]
    exact .emptyBuffer hzero (by simp [hcells])
  | endOfStream => cases hopen

theorem Receive.close {len : Nat} {net net' : Incoming} {got : Received}
    (hopen : net.closed = false) (h : Receive kernel len net got net') :
    Receive kernel len net.close got net'.close := by
  cases h with
  | data hne hle => exact .data hne hle
  | emptyBuffer hzero hcells => exact .emptyBuffer hzero hcells
  | endOfStream => cases hopen

/-- The steps that a call makes on an open stream it can make if the stream has
more bytes in the end. -/
theorem moves_feed {a b : RecvPoint × Incoming} (new : List Cell) (hopen : a.2.closed = false)
    (h : ReflTransGen (recvMove kernel t) a b) :
    ReflTransGen (recvMove kernel t) (a.1, a.2.feed new) (b.1, b.2.feed new) := by
  refine (moves_of_resource (R := recvPacket kernel t) (fun net => net.closed = false)
    (·.feed new) ?_ hopen h).1
  rintro point net point' net' hnet ⟨len, got, hlen, hrecv, hpoint⟩
  exact ⟨⟨len, got, hlen, hrecv.feed new hnet, hpoint⟩, hrecv.closed_eq.trans hnet⟩

end Longer

/-! ## The packets as they are received -/

/-- The descriptors of the `i`-th packet. -/
def packetFds (ps : List Packet) (i : Nat) : List RawFd := (ps[i]?.map Packet.fds).getD []

namespace Kernel

variable (kernel : Kernel)

/-- The call for the `i`-th packet also takes the descriptors of the one behind
it. -/
def takesNext (ps : List Packet) (i : Nat) : Bool :=
  kernel.handsOverEarly && (ps[i]?.any fun p => p.payload.isEmpty)

/-- The descriptors that are still on the `i`-th packet when its call begins. -/
def fdsLeft (ps : List Packet) : Nat → List RawFd
  | 0 => packetFds ps 0
  | i + 1 => if kernel.takesNext ps i then [] else packetFds ps (i + 1)

/-- The descriptors that the call for the `i`-th packet returns. -/
def handedOver (ps : List Packet) (i : Nat) : List RawFd :=
  kernel.fdsLeft ps i ++ if kernel.takesNext ps i then packetFds ps (i + 1) else []

/-- The packets as the calls return them. -/
def received (ps : List Packet) : List Packet :=
  ps.mapIdx fun i p => p.asReceived (kernel.handedOver ps i)

/-- The packets that are still on the stream after `i` calls. -/
def remaining (ps : List Packet) (i : Nat) : List Packet :=
  match ps.drop i with
  | [] => []
  | p :: rest => { p with fds := kernel.fdsLeft ps i } :: rest

variable {kernel} {ps : List Packet} {p : Packet} {i : Nat}

theorem packetFds_of_getElem? (h : ps[i]? = some p) : packetFds ps i = p.fds := by
  rw [packetFds, h]
  rfl

theorem takesNext_of_getElem? (h : ps[i]? = some p) :
    kernel.takesNext ps i = true ↔ kernel.handsOverEarly = true ∧ p.payload = [] := by
  simp [takesNext, h]

theorem getElem?_received : (kernel.received ps)[i]? =
    ps[i]?.map fun p => p.asReceived (kernel.handedOver ps i) := by
  rw [received, List.getElem?_mapIdx]

@[simp] theorem length_received : (kernel.received ps).length = ps.length :=
  List.length_mapIdx

@[simp] theorem remaining_zero : kernel.remaining ps 0 = ps := by
  cases ps <;> rfl

theorem remaining_of_getElem? (h : ps[i]? = some p) :
    kernel.remaining ps i = { p with fds := kernel.fdsLeft ps i } :: ps.drop (i + 1) := by
  obtain ⟨hlt, rfl⟩ := List.getElem?_eq_some_iff.mp h
  rw [remaining, List.drop_eq_getElem_cons hlt]

theorem remaining_of_le (h : ps.length ≤ i) : kernel.remaining ps i = [] := by
  rw [remaining, List.drop_eq_nil_of_le h]

/-- What remains are packets that can be sent if all are. -/
theorem sendable_of_remaining (hps : ∀ p ∈ ps, p.Sendable) :
    ∀ p ∈ kernel.remaining ps i, p.Sendable := by
  intro q hq
  unfold remaining at hq
  split at hq
  · cases hq
  · next p rest hdrop =>
    have hmem : ∀ q ∈ p :: rest, q.Sendable := fun q hq => hps q (List.mem_of_mem_drop (hdrop ▸ hq))
    rcases List.mem_cons.mp hq with rfl | hq
    · exact hmem p List.mem_cons_self
    · exact hmem q (List.mem_cons_of_mem p hq)

/-- A packet is returned with its own descriptors if it has a payload or the
next one has no descriptors, and the packet in front of it has a payload or it
has no descriptors itself. -/
theorem handedOver_eq_own (h : ps[i]? = some p)
    (hnext : kernel.takesNext ps i = true → packetFds ps (i + 1) = [])
    (hprevious : ∀ j, i = j + 1 → kernel.takesNext ps j = true → p.fds = []) :
    kernel.handedOver ps i = p.fds := by
  have hleft : kernel.fdsLeft ps i = p.fds := by
    cases i with
    | zero => exact packetFds_of_getElem? h
    | succ j =>
      rw [fdsLeft]
      split
      · next htakes => exact (hprevious j rfl htakes).symm
      · exact packetFds_of_getElem? h
  rw [handedOver, hleft]
  split
  · next htakes => rw [hnext htakes, List.append_nil]
  · exact List.append_nil _

/-- A packet that is alone on the stream is. -/
theorem handedOver_single (kernel : Kernel) (p : Packet) : kernel.handedOver [p] 0 = p.fds :=
  handedOver_eq_own rfl (fun _ => rfl) fun _ h => by cases h

end Kernel

/-! ## Behind a packet is a packet -/

section Behind

variable {kernel : Kernel} {t : Target} {ps : List Packet} {p : Packet} {i : Nat}

theorem sentCells_eq_attach (hp : p.Sendable) (fds : List RawFd) :
    sentCells t { p with fds := fds } = attach fds (p.frame t) :=
  sentCells_of_sendable (p := { p with fds := fds }) hp

/-- The descriptors of the next packet are on the next byte. -/
theorem nextFds_flatMap (hps : ∀ p ∈ ps, p.Sendable) :
    nextFds (ps.flatMap (sentCells t)) = packetFds ps 0 := by
  cases ps with
  | nil => rfl
  | cons p ps =>
    rw [List.flatMap_cons, sentCells_of_sendable (hps p List.mem_cons_self),
      nextFds_attach p.fds (Packet.frame_ne_nil t p)]
    rfl

theorem withoutNextFds_flatMap (hp : p.Sendable) :
    withoutNextFds ((p :: ps).flatMap (sentCells t)) =
      ({ p with fds := [] } :: ps).flatMap (sentCells t) := by
  rw [List.flatMap_cons, List.flatMap_cons, sentCells_of_sendable hp, sentCells_eq_attach hp,
    withoutNextFds_attach p.fds (Packet.frame_ne_nil t p)]

/-- What a call takes off the stream behind the `i`-th packet. -/
theorem fdsBehind_packet (hps : ∀ p ∈ ps, p.Sendable) (h : ps[i]? = some p) :
    kernel.fdsLeft ps i ++ kernel.fdsBehind p.payload ((ps.drop (i + 1)).flatMap (sentCells t)) =
      kernel.handedOver ps i := by
  have hnext : nextFds ((ps.drop (i + 1)).flatMap (sentCells t)) = packetFds ps (i + 1) := by
    rw [nextFds_flatMap fun q hq => hps q (List.mem_of_mem_drop hq), packetFds, packetFds,
      List.getElem?_drop]
  rw [Kernel.handedOver, Kernel.fdsBehind, Kernel.earlyFds, hnext]
  simp only [Kernel.takesNext_of_getElem? h, ite_and]
  split <;> split <;> rfl

/-- What it leaves there. -/
theorem restBehind_packet (hps : ∀ p ∈ ps, p.Sendable) (h : ps[i]? = some p) :
    kernel.restBehind p.payload ((ps.drop (i + 1)).flatMap (sentCells t)) =
      (kernel.remaining ps (i + 1)).flatMap (sentCells t) := by
  cases hnext : ps[i + 1]? with
  | none =>
    have hle := List.getElem?_eq_none_iff.mp hnext
    rw [List.drop_eq_nil_of_le hle, Kernel.remaining_of_le hle, List.flatMap_nil,
      Kernel.restBehind, Kernel.afterEarly_nil, ite_self]
  | some q =>
    obtain ⟨hlt, rfl⟩ := List.getElem?_eq_some_iff.mp hnext
    have hq := hps _ (List.getElem_mem hlt)
    rw [Kernel.remaining_of_getElem? hnext, List.drop_eq_getElem_cons hlt, Kernel.fdsLeft,
      Kernel.packetFds_of_getElem? hnext, Kernel.restBehind, Kernel.afterEarly,
      withoutNextFds_flatMap hq]
    simp only [Kernel.takesNext_of_getElem? h, ite_and]
    split <;> split <;> rfl

end Behind

/-! ## One call -/

section OneCall

variable {kernel : Kernel} {t : Target} {closed : Bool}

/-- A byte without descriptors that comes later makes no difference to what is
taken off the stream behind a packet. -/
theorem Kernel.behind_snoc (kernel : Kernel) (payload : List UInt8) (rest : List Cell) (b : UInt8) :
    kernel.fdsBehind payload (rest ++ [⟨b, []⟩]) = kernel.fdsBehind payload rest ∧
      kernel.restBehind payload (rest ++ [⟨b, []⟩]) =
        kernel.restBehind payload rest ++ [⟨b, []⟩] := by
  by_cases hpayload : payload = []
  · subst hpayload
    by_cases hrest : rest = []
    · subst hrest
      simp [Kernel.fdsBehind, Kernel.restBehind, Kernel.earlyFds, Kernel.afterEarly, nextFds,
        withoutNextFds]
    · exact ⟨kernel.earlyFds_append hrest _, kernel.afterEarly_append hrest _⟩
  · simp [hpayload]

/-- The first packet of the stream is returned, unless it has no payload and
nothing follows it. -/
theorem inevitable_packet {p : Packet} (hp : p.Sendable) {rest : List Cell}
    (hmore : p.payload ≠ [] ∨ rest ≠ [] ∨ closed = true) :
    Inevitable (recvMove kernel t)
      (· = (.returned (.ok (p.asReceived (p.fds ++ kernel.fdsBehind p.payload rest))),
        ⟨kernel.restBehind p.payload rest, closed⟩))
      (.start, ⟨sentCells t p ++ rest, closed⟩) := by
  have hframe : Inevitable (recvMove kernel t) _ _ :=
    inevitable_serialized hp (bytesOf_attach p.fds (p.frame t)) hmore
  rwa [fdsOf_attach _ (Packet.frame_ne_nil t p), ← sentCells_of_sendable hp] at hframe

/-- A call that returns has taken the first packet of the stream, and of what
follows at most descriptors. -/
theorem call_takes_packet {p : Packet} (hp : p.Sendable) {rest : List Cell} {point : RecvPoint}
    {net : Incoming} {o : Except Error Packet}
    (hmoves : ReflTransGen (recvMove kernel t) (.start, ⟨sentCells t p ++ rest, closed⟩)
      (point, net))
    (hres : (recvPacket kernel t).result point = some o) :
    o = .ok (p.asReceived (p.fds ++ kernel.fdsBehind p.payload rest)) ∧
      net = ⟨kernel.restBehind p.payload rest, closed⟩ := by
  cases point with
  | header _ _ | payload _ _ _ _ _ => cases hres
  | returned result =>
    cases hres
    cases closed with
    | true =>
      cases (inevitable_packet hp (.inr (.inr rfl))).post _ hmoves (ends_returned _ _)
      exact ⟨rfl, rfl⟩
    | false =>
      -- with one more byte on the stream, the call is bound to return
      have hfed := moves_feed [⟨0, []⟩] rfl hmoves
      rw [Incoming.feed, List.append_assoc] at hfed
      have hend := (inevitable_packet hp (.inr (.inl (by simp)))).post _ hfed (ends_returned _ _)
      obtain ⟨hfds, hrest⟩ := kernel.behind_snoc p.payload rest 0
      obtain ⟨cells, closed⟩ := net
      simp only [Incoming.feed, hfds, hrest, Prod.mk.injEq, RecvPoint.returned.injEq,
        Incoming.mk.injEq, List.append_cancel_right_eq] at hend
      obtain ⟨rfl, rfl, rfl⟩ := hend
      exact ⟨rfl, rfl⟩

/-- A call that finds no packet returns at the end of the stream only. -/
theorem call_past_end {point : RecvPoint} {net : Incoming} {o : Except Error Packet}
    (hmoves : ReflTransGen (recvMove kernel t) (.start, ⟨[], closed⟩) (point, net))
    (hres : (recvPacket kernel t).result point = some o) :
    closed = true ∧ o = .error (.io .unexpectedEof) ∧ net = ⟨[], true⟩ := by
  cases closed with
  | true =>
    have hshort : ([] : List Cell).length < 8 := by decide
    have heof : Inevitable (recvMove kernel t) _ _ := inevitable_eof hshort
    cases point with
    | header _ _ | payload _ _ _ _ _ => cases hres
    | returned result =>
      cases hres
      cases heof.post _ hmoves (ends_returned _ _)
      exact ⟨rfl, rfl, rfl⟩
  | false =>
    rcases hmoves.cases_head with hstart | ⟨_, hmove, _⟩
    · cases hstart
      cases hres
    · exact absurd hmove (ends_stalled _ _)

/-- What the `i`-th call returns. -/
structure Answered (kernel : Kernel) (ps : List Packet) (closed : Bool) (i : Nat)
    (o : Except Error Packet) : Prop where
  packet : ∀ q, (kernel.received ps)[i]? = some q → o = .ok q
  atEnd : ps.length ≤ i → closed = true ∧ o = .error (.io .unexpectedEof)

/-- A call that returns has returned the next of the packets as they are
received, and left those that remain. -/
theorem call_in_order {ps : List Packet} (hps : ∀ p ∈ ps, p.Sendable) {i : Nat}
    {point : RecvPoint} {net : Incoming} {o : Except Error Packet}
    (hmoves : ReflTransGen (recvMove kernel t)
      (.start, ⟨(kernel.remaining ps i).flatMap (sentCells t), closed⟩) (point, net))
    (hres : (recvPacket kernel t).result point = some o) :
    Answered kernel ps closed i o ∧
      net = ⟨(kernel.remaining ps (i + 1)).flatMap (sentCells t), closed⟩ := by
  rcases Nat.lt_or_ge i ps.length with hlt | hge
  · have hp := List.getElem?_eq_getElem hlt
    rw [Kernel.remaining_of_getElem? hp, List.flatMap_cons] at hmoves
    have hsendable : ps[i].Sendable := hps _ (List.getElem_mem hlt)
    obtain ⟨rfl, rfl⟩ := call_takes_packet (p := { ps[i] with fds := kernel.fdsLeft ps i })
      hsendable hmoves hres
    refine ⟨⟨fun q hq => ?_, fun hle => absurd hle (Nat.not_le.mpr hlt)⟩, ?_⟩
    · rw [Kernel.getElem?_received, hp] at hq
      cases hq
      rw [← fdsBehind_packet hps hp]
      rfl
    · rw [restBehind_packet hps hp]
  · rw [Kernel.remaining_of_le hge, List.flatMap_nil] at hmoves
    obtain ⟨rfl, rfl, rfl⟩ := call_past_end hmoves hres
    refine ⟨⟨fun q hq => ?_, fun _ => ⟨rfl, rfl⟩⟩, ?_⟩
    · rw [Kernel.getElem?_received, List.getElem?_eq_none hge] at hq
      cases hq
    · rw [Kernel.remaining_of_le (Nat.le_succ_of_le hge), List.flatMap_nil]

end OneCall

end WhaleLand
