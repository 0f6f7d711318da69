import WhaleLand.WireRoundTrip

/-!
# Framing of the receive side

Any number of tasks call `recv_packet` on a stream of frames. Calls take turns
under `recv_lock`, so it is enough to know what one call does at the start of
a frame (`inevitable_serialized`): it takes exactly that frame, and the next
call starts at the next one (`recv_framing`).
-/

namespace WhaleLand

open Relation Transition CriticalSection

/-- The parts of a packet that do not depend on its opcode. -/
structure SameMessage (q p : Packet) : Prop where
  objectId : q.objectId = p.objectId
  payload : q.payload = p.payload
  fds : q.fds = p.fds

section Framing

variable {kernel : Kernel} {t : Target} {ps : List Packet} {rest : List Cell} {closed : Bool}

/-- The stream from the `i`-th frame on. -/
def streamFrom (t : Target) (ps : List Packet) (rest : List Cell) (closed : Bool) (i : Nat) :
    Incoming :=
  ⟨(ps.drop i).flatMap (sentCells t) ++ rest, closed⟩

/-- Unless the frames are used up, the stream is at the `i`-th one. -/
def AtFrame (t : Target) (ps : List Packet) (rest : List Cell) (closed : Bool) (i : Nat)
    (net : Incoming) : Prop :=
  i ≤ ps.length → net = streamFrom t ps rest closed i

/-- The `i`-th call is answered with the `i`-th packet, if there is one. -/
def Answers (ps : List Packet) (i : Nat) (o : Except Error Packet) : Prop :=
  ∀ p, ps[i]? = some p → ∃ q, o = .ok q ∧ SameMessage q p

/-- What is assumed of the packets: they can be sent, and are not empty. -/
def NonemptyFrames (t : Target) (ps : List Packet) : Prop :=
  ∀ p ∈ ps, (∃ bytes, p.serialize t = .ok bytes) ∧ p.payload ≠ []

/-- A call that starts at a frame returns its packet and leaves the stream at
the next frame. -/
theorem inevitable_at {i : Nat} {p : Packet} (hps : NonemptyFrames t ps)
    (hi : ps[i]? = some p) :
    Inevitable (recvMove kernel t)
      (· = (.returned (.ok (p.asReceived p.fds)), streamFrom t ps rest closed (i + 1)))
      (.start, streamFrom t ps rest closed i) := by
  obtain ⟨⟨bytes, hbytes⟩, hpayload⟩ := hps p (List.mem_of_getElem? hi)
  have hsendable := (Packet.serialize_eq_ok.mp hbytes).1
  obtain ⟨hlt, rfl⟩ := List.getElem?_eq_some_iff.mp hi
  have hstream : streamFrom t ps rest closed i =
      ⟨attach ps[i].fds (ps[i].frame t) ++
        ((ps.drop (i + 1)).flatMap (sentCells t) ++ rest), closed⟩ := by
    rw [streamFrom, List.drop_eq_getElem_cons hlt, List.flatMap_cons, List.append_assoc,
      sentCells_of_sendable hsendable]
  have hmore : ps[i].payload ≠ [] ∨
      (ps.drop (i + 1)).flatMap (sentCells t) ++ rest ≠ [] ∨ closed = true := .inl hpayload
  have hframe : Inevitable (recvMove kernel t) _ _ :=
    inevitable_serialized hsendable (bytesOf_attach ps[i].fds (ps[i].frame t)) hmore
  rw [fdsOf_attach _ (Packet.frame_ne_nil t _), kernel.fdsBehind_of_ne hpayload,
    kernel.restBehind_of_ne hpayload, List.append_nil] at hframe
  rw [hstream]
  exact hframe

/-- What one call does, from lock to result. -/
theorem call_at_frame (hps : NonemptyFrames t ps) {i : Nat} {o : Except Error Packet}
    {point : RecvPoint} {net net' : Incoming} (hat : AtFrame t ps rest closed i net)
    (hmoves : ReflTransGen (recvMove kernel t) (.start, net) (point, net'))
    (hres : (recvPacket kernel t).result point = some o) :
    Answers ps i o ∧ AtFrame t ps rest closed (i + 1) net' := by
  cases point with
  | header _ _ | payload _ _ _ _ _ => cases hres
  | returned result =>
    cases hres
    constructor
    · intro p hi
      have hlt := (List.getElem?_eq_some_iff.mp hi).1
      rw [hat hlt.le] at hmoves
      cases (inevitable_at hps hi).post _ hmoves (ends_returned _ _)
      exact ⟨_, rfl, rfl, rfl, rfl⟩
    · intro hlt
      -- a call past the last frame is not constrained, so the next frame has to be there
      rw [hat (Nat.le_of_succ_le hlt)] at hmoves
      cases (inevitable_at hps (List.getElem?_eq_getElem hlt)).post _ hmoves (ends_returned _ _)
      rfl

variable {Task : Type}

/-- The finished calls have been answered in lock order, and the stream is at
the frame after theirs. -/
theorem history_at_frame (hps : NonemptyFrames t ps)
    {calls : List (Task × Unit × Except Error Packet)} {net : Incoming}
    (h : History (recvPacket kernel t) (streamFrom t ps rest closed 0) calls net) :
    AtFrame t ps rest closed calls.length net ∧
      ∀ k task c o, calls[k]? = some (task, c, o) → Answers ps k o := by
  refine h.indexed (AtFrame t ps rest closed) (fun i _ o => Answers ps i o) ?_ fun _ => rfl
  rintro i c o _ point net net' hat ⟨⟩ hmoves hres
  exact call_at_frame hps hat hmoves hres

/-- Whatever the interleaving of the callers and the chunking of the stream,
the `k`-th call to take the lock is answered with the `k`-th packet: it has
returned it, or it is the call that holds the lock and is bound to. -/
theorem recv_framing [DecidableEq Task] (hps : NonemptyFrames t ps)
    {s : CriticalSection.State (recvPacket kernel t) Task}
    (hrun : ReflTransGen Step
      (.init (recvPacket kernel t) Task ⟨ps.flatMap (sentCells t) ++ rest, closed⟩) s) :
    (∀ (k : Nat) (task : Task) (o : Except Error Packet) (p : Packet),
      s.finished[k]? = some (task, (), o) → ps[k]? = some p →
      ∃ q, o = .ok q ∧ SameMessage q p) ∧
    (∀ (task : Task) (point : RecvPoint) (p : Packet),
      s.phase task = .inside () point → ps[s.finished.length]? = some p →
      Inevitable (recvMove kernel t) (fun e => ∃ q, e.1 = .returned (.ok q) ∧ SameMessage q p)
        (point, s.resource)) := by
  have hserial := serialized hrun
  constructor
  · intro k task o p hk hp
    obtain ⟨net, hhist⟩ := hserial.exists_history
    exact (history_at_frame hps hhist).2 k task () o hk p hp
  · intro task point p hin hp
    obtain ⟨c', p₀, point', net, hin', henter, hhist, hmoves⟩ :=
      hserial.held task (hserial.exclusive task () point hin)
    rw [hin] at hin'
    cases hin'
    cases henter
    have hlt := (List.getElem?_eq_some_iff.mp hp).1
    rw [(history_at_frame hps hhist).1 hlt.le] at hmoves
    refine ((inevitable_at hps hp).of_run hmoves).mono ?_
    rintro _ rfl
    exact ⟨_, rfl, rfl, rfl, rfl⟩

end Framing

def twoPackets : List Packet :=
  [⟨.ofNat 2, 0, [1, 2, 3, 4], [5]⟩, ⟨.ofNat 3, 1, [6, 7, 8, 9], []⟩]

/-- One of two tasks has received the first of two packets. -/
theorem recv_framing_two :
    ∃ (s : CriticalSection.State (recvPacket .linux ⟨.little, .w64⟩) Bool)
      (o : Except Error Packet),
      s.finished = [(true, (), o)] ∧
      ∃ q, o = .ok q ∧ SameMessage q ⟨.ofNat 2, 0, [1, 2, 3, 4], [5]⟩ := by
  have hps : NonemptyFrames ⟨.little, .w64⟩ twoPackets := by
    intro p hp
    simp only [twoPackets, List.mem_cons, List.not_mem_nil, or_false] at hp
    rcases hp with rfl | rfl
    · exact ⟨⟨_, Packet.serialize_of_sendable (by decide)⟩, by decide⟩
    · exact ⟨⟨_, Packet.serialize_of_sendable (by decide)⟩, by decide⟩
  have hrecv : Inevitable (recvMove .linux ⟨.little, .w64⟩)
      (· = (_, streamFrom _ twoPackets [] false 1)) (.start, streamFrom _ twoPackets [] false 0) :=
    inevitable_at hps rfl
  obtain ⟨_, hmoves, hends⟩ := hrecv.exists_end
  cases hrecv.post _ hmoves hends
  obtain ⟨s, hrun, hfin, _⟩ := exists_run_of_call
    (s := .init (recvPacket .linux ⟨.little, .w64⟩) Bool (streamFrom _ twoPackets [] false 0))
    (t := true) (c := ()) trivial rfl rfl hmoves rfl
  exact ⟨s, _, hfin, (recv_framing hps hrun).1 0 true _ _ (by rw [hfin]; rfl) rfl⟩

end WhaleLand
