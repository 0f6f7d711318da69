import WhaleLand.Socket
import WhaleLand.Lib.CriticalSection

/-!
# Sending a packet

`Connection::send_packet` as a routine that works under `send_lock`. The packet
is serialized before the lock is taken; then it is sent with its descriptors,
and as long as some of it is unsent, the rest of it without.

A call puts a growing prefix of its packet on the wire (`sending_run`). Calls
take turns, so the wire holds one whole packet after the other, and a part of
the one in progress (`sends_never_interleave`).
-/

namespace WhaleLand

open Relation CriticalSection

/-! ## The routine -/

/-- Where a call of `send_packet` is once it has the lock: at `send_with_fds`,
at the `send` of the loop, or at its return. -/
inductive SendPoint
  | first (serialized : List UInt8) (fds : List RawFd)
  | more (serialized : List UInt8) (totalSent : Nat)
  | returned (result : Except Error Unit)
deriving DecidableEq

namespace SendPoint

/-- The data and descriptors of the send that is to be made. -/
def pending : SendPoint → Option (List UInt8 × List RawFd)
  | .first serialized fds => some (serialized, fds)
  | .more serialized totalSent => some (serialized.drop totalSent, [])
  | .returned _ => none

/-- The loop test: `while total_sent < serialized.len()`. -/
def loop (serialized : List UInt8) (totalSent : Nat) : SendPoint :=
  if totalSent < serialized.length then .more serialized totalSent else .returned (.ok ())

/-- Goes on after a send that failed or reported how much it sent. -/
def resume : SendPoint → Except IoError Nat → SendPoint
  | .first serialized _, .ok sent => loop serialized sent
  | .more serialized totalSent, .ok nowSent => loop serialized (totalSent + nowSent)
  | .first _ _, .error e => .returned (.error (.io e))
  | .more _ _, .error e => .returned (.error (.io e))
  | .returned result, _ => .returned result

end SendPoint

/-- `send_packet` on a socket whose sends succeed. The resource is what has
been put on the wire. -/
def sendPacket (t : Target) : Routine Packet (List Cell) (Except Error Unit) where
  Point := SendPoint
  enter packet :=
    match packet.serialize t with
    | .error e => .inl (.error e)
    | .ok serialized => .inr (.first serialized packet.fds)
  step point wire point' wire' := ∃ data fds sent, point.pending = some (data, fds) ∧
    Send data fds wire sent wire' ∧ point' = point.resume (.ok sent)
  result
    | .returned result => some result
    | _ => none

/-! ## One call -/

section OneCall

variable {t : Target} {bytes : List UInt8} {fds : List RawFd}

/-- What a call has put on the wire when it is at a point: nothing at first,
then the bytes counted by `total_sent`, in the end all of them. -/
def Sending (bytes : List UInt8) (fds : List RawFd) : SendPoint → List Cell → Prop
  | .first serialized fds', sent => serialized = bytes ∧ fds' = fds ∧ sent = []
  | .more serialized totalSent, sent => serialized = bytes ∧ totalSent ≠ 0 ∧
      totalSent < bytes.length ∧ sent = attach fds (bytes.take totalSent)
  | .returned result, sent => result = .ok () ∧ sent = attach fds bytes

theorem enter_eq_inr {p : Packet} {point : SendPoint} (h : (sendPacket t).enter p = .inr point) :
    ∃ bytes, p.serialize t = .ok bytes ∧ point = .first bytes p.fds := by
  simp only [sendPacket] at h
  split at h
  · cases h
  · next bytes hbytes =>
    cases h
    exact ⟨bytes, hbytes, rfl⟩

theorem enter_eq_inl {p : Packet} {o : Except Error Unit} (h : (sendPacket t).enter p = .inl o) :
    ∃ e, p.serialize t = .error e ∧ o = .error e := by
  simp only [sendPacket] at h
  split at h
  · next e he =>
    cases h
    exact ⟨e, he, rfl⟩
  · cases h

theorem take_ne_nil {n : Nat} (hn : n ≠ 0) (hlt : n < bytes.length) : bytes.take n ≠ [] := by
  rw [ne_eq, List.take_eq_nil_iff]
  rintro (hzero | rfl)
  · exact hn hzero
  · cases hlt

theorem sending_loop {n : Nat} (hn : n ≠ 0) :
    Sending bytes fds (.loop bytes n) (attach fds (bytes.take n)) := by
  unfold SendPoint.loop
  split
  · next hlt => exact ⟨rfl, hn, hlt, rfl⟩
  · next hge =>
    rw [List.take_of_length_le (Nat.not_lt.mp hge)]
    exact ⟨rfl, rfl⟩

/-- A send adds its bytes to what the call has put on the wire. -/
theorem sending_step {point point' : SendPoint} {wire wire' sent : List Cell}
    (hs : Sending bytes fds point sent)
    (h : (sendPacket t).step point (wire ++ sent) point' wire') :
    ∃ sent', wire' = wire ++ sent' ∧ Sending bytes fds point' sent' := by
  obtain ⟨data, fds', n, hpending, ⟨hpos, _⟩, rfl⟩ := h
  cases point with
  | first serialized fds₁ =>
    obtain ⟨rfl, rfl, rfl⟩ := hs
    cases hpending
    rw [List.append_nil]
    exact ⟨_, rfl, sending_loop (by omega)⟩
  | more serialized totalSent =>
    obtain ⟨rfl, hne, hlt, rfl⟩ := hs
    cases hpending
    refine ⟨attach fds (serialized.take (totalSent + n)), ?_, sending_loop (by omega)⟩
    -- the descriptors went with the first bytes, so the rest is attached without any
    rw [List.take_add, attach_append _ (take_ne_nil hne hlt), List.append_assoc]
  | returned result => cases hpending

theorem sending_run {point : SendPoint} {wire : List Cell} {b : SendPoint × List Cell}
    (hs : Sending bytes fds point [])
    (h : ReflTransGen (sendPacket t).move (point, wire) b) :
    ∃ sent, b.2 = wire ++ sent ∧ Sending bytes fds b.1 sent := by
  induction h with
  | refl => exact ⟨[], (List.append_nil wire).symm, hs⟩
  | @tail b c _ hmove ih =>
    obtain ⟨sent, hwire, hsending⟩ := ih
    have hstep : (sendPacket t).step b.1 (wire ++ sent) c.1 c.2 := hwire ▸ hmove
    exact sending_step hsending hstep

theorem sending_isPrefix {point : SendPoint} {sent : List Cell}
    (hs : Sending bytes fds point sent) : sent <+: attach fds bytes := by
  cases point with
  | first _ _ =>
    obtain ⟨_, _, rfl⟩ := hs
    exact List.nil_prefix
  | more serialized totalSent =>
    obtain ⟨rfl, hne, hlt, rfl⟩ := hs
    have hsplit := attach_append fds (take_ne_nil hne hlt) (serialized.drop totalSent)
    rw [List.take_append_drop] at hsplit
    rw [hsplit]
    exact List.prefix_append _ _
  | returned _ => exact hs.2 ▸ List.prefix_refl _

/-- What a call on packet `p` has put on the wire, wherever it is. -/
theorem sent_of_moves {p : Packet} {point₀ : SendPoint} {wire : List Cell}
    {b : SendPoint × List Cell} (henter : (sendPacket t).enter p = .inr point₀)
    (h : ReflTransGen (sendPacket t).move (point₀, wire) b) :
    ∃ bytes sent, p.serialize t = .ok bytes ∧ b.2 = wire ++ sent ∧ sent <+: sentCells t p ∧
      ∀ o, (sendPacket t).result b.1 = some o → o = .ok () ∧ sent = sentCells t p := by
  obtain ⟨bytes, hbytes, rfl⟩ := enter_eq_inr henter
  have hstart : Sending bytes p.fds (.first bytes p.fds) [] := ⟨rfl, rfl, rfl⟩
  obtain ⟨sent, hwire, hsending⟩ := sending_run hstart h
  have hcells : sentCells t p = attach p.fds bytes := by rw [sentCells, hbytes]
  rw [hcells]
  refine ⟨bytes, sent, hbytes, hwire, sending_isPrefix hsending, fun o ho => ?_⟩
  obtain ⟨point, _⟩ := b
  cases point with
  | first _ _ | more _ _ => cases ho
  | returned result =>
    cases ho
    exact hsending

end OneCall

/-! ## Many calls -/

section ManyCalls

variable {t : Target} {Task : Type}

/-- The packets of finished calls, as they stand on the wire. -/
def wireOf (t : Target) (calls : List (Task × Packet × Except Error Unit)) : List Cell :=
  calls.flatMap fun call => sentCells t call.2.1

/-- A call that took the lock and released it has sent a serialized packet. -/
def Sent (t : Target) (call : Task × Packet × Except Error Unit) : Prop :=
  call.2.2 = .ok () ∧ ∃ bytes, call.2.1.serialize t = .ok bytes

theorem wire_of_history {calls : List (Task × Packet × Except Error Unit)} {wire : List Cell}
    (h : History (sendPacket t) [] calls wire) :
    wire = wireOf t calls ∧ ∀ call ∈ calls, Sent t call := by
  induction h with
  | nil => exact ⟨rfl, fun _ hmem => absurd hmem List.not_mem_nil⟩
  | @snoc calls task p o _ _ _ _ _ henter hmoves hres ih =>
    obtain ⟨rfl, hsent⟩ := ih
    obtain ⟨bytes, sent, hbytes, rfl, _, hresult⟩ := sent_of_moves henter hmoves
    obtain ⟨rfl, rfl⟩ := hresult o hres
    refine ⟨by simp [wireOf], fun call hmem => ?_⟩
    rcases List.mem_append.mp hmem with hmem | hmem
    · exact hsent call hmem
    · exact List.mem_singleton.mp hmem ▸ ⟨rfl, bytes, hbytes⟩

/-- Whatever the interleaving and however short the sends, the wire holds the
packets of the finished calls, each whole and with its descriptors on its
first byte, in the order of the lock, followed by a part of the one in
progress. A call that returned `Ok` is among the finished ones. A packet that
cannot be serialized is refused without having been near the wire. -/
theorem sends_never_interleave [DecidableEq Task]
    {s : CriticalSection.State (sendPacket t) Task}
    (hrun : ReflTransGen Step (.init (sendPacket t) Task []) s) :
    (∃ inProgress, s.resource = wireOf t s.finished ++ inProgress ∧
      (s.holder = none → inProgress = []) ∧
      ∀ task, s.holder = some task → ∃ p point bytes, s.phase task = .inside p point ∧
        p.serialize t = .ok bytes ∧ inProgress <+: attach p.fds bytes) ∧
    (∀ call ∈ s.finished, Sent t call) ∧
    (∀ task p, s.phase task = .returned p (.ok ()) → (task, p, .ok ()) ∈ s.finished) ∧
    (∀ task p e, s.phase task = .returned p (.error e) → p.serialize t = .error e) := by
  have hserial := serialized hrun
  obtain ⟨wire, hhistory⟩ := hserial.exists_history
  have hsent := (wire_of_history hhistory).2
  refine ⟨?_, hsent, fun task p hret => ?_, fun task p e hret => ?_⟩
  · cases hholder : s.holder with
    | none =>
      refine ⟨[], ?_, fun _ => rfl, fun task h => absurd h (by simp)⟩
      rw [List.append_nil]
      exact (wire_of_history (hserial.free hholder)).1
    | some task =>
      -- the holder has gone on from where the finished calls left the wire
      obtain ⟨p, point₀, point, wire, hin, henter, hhist, hmoves⟩ := hserial.held task hholder
      obtain ⟨bytes, sent, hbytes, hwire, hprefix, _⟩ := sent_of_moves henter hmoves
      rw [sentCells, hbytes] at hprefix
      refine ⟨sent, ?_, (fun h => by cases h), fun task' htask => ?_⟩
      · rw [← (wire_of_history hhist).1]
        exact hwire
      · cases htask
        exact ⟨p, point, bytes, hin, hbytes, hprefix⟩
  · rcases hserial.returned task p _ hret with henter | hmem
    · obtain ⟨e, _, he⟩ := enter_eq_inl henter
      cases he
    · exact hmem
  · rcases hserial.returned task p _ hret with henter | hmem
    · obtain ⟨e', he', he⟩ := enter_eq_inl henter
      cases he
      exact he'
    · cases (hsent _ hmem).1

end ManyCalls

/-- A packet with a descriptor, and one that waits for the lock meanwhile. -/
def firstSent : Packet := ⟨.ofNat 2, 0, [], [5]⟩

def secondSent : Packet := ⟨.ofNat 3, 1, [1, 2, 3, 4], [6]⟩

/-- Two tasks call; the first packet is sent in two parts, and of the second one
three bytes. -/
theorem sends_never_interleave_two :
    ∃ s : CriticalSection.State (sendPacket ⟨.little, .w64⟩) Bool,
      s.finished = [(false, firstSent, .ok ())] ∧ s.holder = some true ∧
      ∃ inProgress, s.resource = attach [5] [2, 0, 0, 0, 0, 0, 8, 0] ++ inProgress ∧
        inProgress <+: attach [6] [3, 0, 0, 0, 1, 0, 12, 0, 1, 2, 3, 4] := by
  have hrun : ReflTransGen Step (.init (sendPacket ⟨.little, .w64⟩) Bool []) _ :=
    .single (.call (t := false) (c := firstSent) trivial)
  have hrun := hrun.tail (.call (t := true) (c := secondSent) trivial)
  have hrun := hrun.tail (.acquire (t := false) (c := firstSent)
    (p := SendPoint.first [2, 0, 0, 0, 0, 0, 8, 0] [5]) (by rfl) rfl)
  have hrun := hrun.tail (.work (t := false) (by rfl)
    ⟨_, _, _, rfl, .sent (n := 3) (by decide) (by decide), rfl⟩)
  have hrun := hrun.tail (.work (t := false) (by rfl)
    ⟨_, _, _, rfl, .sent (n := 5) (by decide) (by decide), rfl⟩)
  have hrun := hrun.tail (.release (t := false) (by rfl) rfl)
  have hrun := hrun.tail (.acquire (t := true) (c := secondSent)
    (p := SendPoint.first [3, 0, 0, 0, 1, 0, 12, 0, 1, 2, 3, 4] [6]) (by rfl) rfl)
  have hrun := hrun.tail (.work (t := true) (by rfl)
    ⟨_, _, _, rfl, .sent (n := 3) (by decide) (by decide), rfl⟩)
  obtain ⟨inProgress, hwire, _, hheld⟩ := (sends_never_interleave hrun).1
  refine ⟨_, rfl, rfl, inProgress, hwire, ?_⟩
  obtain ⟨p, point, bytes, hin, hbytes, hprefix⟩ := hheld true rfl
  cases hin
  cases hbytes
  exact hprefix

end WhaleLand
