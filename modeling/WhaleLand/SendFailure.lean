import WhaleLand.SendPacket

/-!
# Sends that stop midway

`send_packet` when its sends can fail, and when a call can be dropped where it
waits. The lock is released in any case, and nothing keeps the next call from
sending after an incomplete frame. Where failures and drops happen is a
parameter (`Interrupts`): the frames on the wire stay whole exactly when it
spares the calls that have sent a part of their frame (`intact_iff`).
-/

namespace WhaleLand

open Relation CriticalSection

/-! ## The routine -/

/-- A call of `send_packet` that has the lock: its point, unless it has been
dropped there, and the number of bytes that it has sent. -/
structure Sender where
  point : Option SendPoint
  totalSent : Nat
deriving DecidableEq

/-- How a call ended: what it returned, unless it was dropped, and the number
of bytes that it had sent. -/
structure SendOutcome where
  result : Option (Except Error Unit)
  totalSent : Nat
deriving DecidableEq

/-- A send succeeds, in part or in whole; or it fails; or the call is dropped
while it waits for the socket. -/
inductive SenderStep (Interrupts : SendPoint → Prop) :
    Sender → List Cell → Sender → List Cell → Prop
  | sent {point : SendPoint} {totalSent now : Nat} {data : List UInt8} {fds : List RawFd}
      {wire wire' : List Cell} :
      point.pending = some (data, fds) → Send data fds wire now wire' →
      SenderStep Interrupts ⟨some point, totalSent⟩ wire
        ⟨some (point.resume (.ok now)), totalSent + now⟩ wire'
  | failed {point : SendPoint} {totalSent : Nat} {wire : List Cell} (e : IoError) :
      point.pending ≠ none → Interrupts point →
      SenderStep Interrupts ⟨some point, totalSent⟩ wire
        ⟨some (point.resume (.error e)), totalSent⟩ wire
  | dropped {point : SendPoint} {totalSent : Nat} {wire : List Cell} :
      point.pending ≠ none → Interrupts point →
      SenderStep Interrupts ⟨some point, totalSent⟩ wire ⟨none, totalSent⟩ wire

/-- `send_packet` on a socket whose sends can fail, its calls dropped or not. -/
def sendPacketInterrupted (t : Target) (Interrupts : SendPoint → Prop) :
    Routine Packet (List Cell) SendOutcome where
  Point := Sender
  enter packet :=
    match packet.serialize t with
    | .error e => .inl ⟨some (.error e), 0⟩
    | .ok serialized => .inr ⟨some (.first serialized packet.fds), 0⟩
  step := SenderStep Interrupts
  result
    | ⟨none, totalSent⟩ => some ⟨none, totalSent⟩
    | ⟨some (.returned result), totalSent⟩ => some ⟨some result, totalSent⟩
    | ⟨some _, _⟩ => none

/-! ## Whole frames -/

section Frames

variable {t : Target} {Task : Type}

/-- The call returned `Ok`. -/
def ReturnedOk (call : Task × Packet × SendOutcome) : Prop :=
  call.2.2.result = some (.ok ())

instance (call : Task × Packet × SendOutcome) : Decidable (ReturnedOk call) :=
  inferInstanceAs (Decidable (_ = _))

/-- The call has put a part of its frame on the wire, and not the rest. -/
def LeftIncomplete (t : Target) (call : Task × Packet × SendOutcome) : Prop :=
  0 < call.2.2.totalSent ∧ call.2.2.totalSent < (sentCells t call.2.1).length

/-- The frames of the calls that returned `Ok`. -/
def okFrames (t : Target) (calls : List (Task × Packet × SendOutcome)) : List Cell :=
  (calls.filter fun call => ReturnedOk call).flatMap fun call => sentCells t call.2.1

/-- The stream is not corrupted. -/
structure Intact (t : Target) {Interrupts : SendPoint → Prop}
    (s : State (sendPacketInterrupted t Interrupts) Task) : Prop where
  /-- On the wire are whole frames, in lock order, and a part of one more. -/
  wire : ∃ p part, s.resource = okFrames t s.finished ++ part ∧ part <+: sentCells t p
  /-- After an incomplete frame no call sends its packet and returns `Ok`. -/
  silent : ∀ before call after, s.finished = before ++ call :: after → LeftIncomplete t call →
    ∀ later ∈ after, ¬ ReturnedOk later

/-- No call fails or is dropped with a part of its frame on the wire. -/
def SparesBegunFrames (t : Target) (Interrupts : SendPoint → Prop) : Prop :=
  ∀ (p : Packet) (bytes : List UInt8) (totalSent : Nat), p.serialize t = .ok bytes →
    0 < totalSent → totalSent < bytes.length → ¬ Interrupts (.more bytes totalSent)

end Frames

/-! ## One call -/

section OneCall

variable {t : Target} {Interrupts : SendPoint → Prop} {bytes : List UInt8} {fds : List RawFd}

/-- What a call has put on the wire: a part of its frame for as long as it
goes on, and nothing if it has failed or been dropped. -/
structure Progress (bytes : List UInt8) (fds : List RawFd) (x : Sender) (sent : List Cell) :
    Prop where
  length : sent.length = x.totalSent
  running : ∀ point, x.point = some point →
    Sending bytes fds point sent ∨ sent = [] ∧ ∃ e, point = .returned (.error e)
  dropped : x.point = none → sent = []

/-- A call that is interrupted has sent nothing yet. -/
theorem sent_eq_nil {point : SendPoint} {sent : List Cell}
    (hspare : ∀ totalSent, 0 < totalSent → totalSent < bytes.length →
      ¬ Interrupts (.more bytes totalSent))
    (hsending : Sending bytes fds point sent) (hpending : point.pending ≠ none)
    (hinterrupts : Interrupts point) : sent = [] := by
  cases point with
  | first _ _ => exact hsending.2.2
  | more serialized totalSent =>
    obtain ⟨rfl, hne, hlt, _⟩ := hsending
    exact absurd hinterrupts (hspare totalSent (Nat.pos_of_ne_zero hne) hlt)
  | returned _ => exact absurd rfl hpending

/-- A point with a send to make has not failed. -/
theorem sending_of_pending {point : SendPoint} {totalSent : Nat} {sent : List Cell}
    (hs : Progress bytes fds ⟨some point, totalSent⟩ sent) (hpending : point.pending ≠ none) :
    Sending bytes fds point sent := by
  rcases hs.running point rfl with hsending | ⟨_, e, rfl⟩
  · exact hsending
  · exact absurd rfl hpending

theorem resume_error {point : SendPoint} (hpending : point.pending ≠ none) (e : IoError) :
    point.resume (.error e) = .returned (.error (.io e)) := by
  cases point with
  | first _ _ | more _ _ => rfl
  | returned _ => exact absurd rfl hpending

theorem progress_step {x x' : Sender} {wire wire' sent : List Cell}
    (hspare : ∀ totalSent, 0 < totalSent → totalSent < bytes.length →
      ¬ Interrupts (.more bytes totalSent))
    (hs : Progress bytes fds x sent)
    (h : (sendPacketInterrupted t Interrupts).step x (wire ++ sent) x' wire') :
    ∃ sent', wire' = wire ++ sent' ∧ Progress bytes fds x' sent' := by
  generalize hwire : wire ++ sent = wire₀ at h
  cases h with
  | @sent point totalSent now data fds' _ _ hpending hsend =>
    subst hwire
    have hsome : point.pending ≠ none := by simp [hpending]
    have hlen : wire'.length = (wire ++ sent).length + now := by
      obtain ⟨_, hle⟩ := hsend
      simp [hle, Nat.add_assoc]
    have hstep : (sendPacket t).step point (wire ++ sent) (point.resume (.ok now)) wire' :=
      ⟨data, fds', now, hpending, hsend, rfl⟩
    obtain ⟨sent', rfl, hsending⟩ := sending_step (sending_of_pending hs hsome) hstep
    refine ⟨sent', rfl, ?_, ?_, fun h => by cases h⟩
    · have hcount : sent.length = totalSent := hs.length
      simp only [List.length_append] at hlen ⊢
      omega
    · rintro _ ⟨rfl⟩
      exact .inl hsending
  | failed e hpending hinterrupts =>
    have hnil := sent_eq_nil hspare (sending_of_pending hs hpending) hpending hinterrupts
    refine ⟨sent, hwire.symm, hs.length, ?_, fun h => by cases h⟩
    rintro _ ⟨rfl⟩
    exact .inr ⟨hnil, .io e, resume_error hpending e⟩
  | dropped hpending hinterrupts =>
    have hnil := sent_eq_nil hspare (sending_of_pending hs hpending) hpending hinterrupts
    exact ⟨sent, hwire.symm, hs.length, (fun _ h => by cases h), fun _ => hnil⟩

theorem Progress.isPrefix {x : Sender} {sent : List Cell} (hs : Progress bytes fds x sent) :
    sent <+: attach fds bytes := by
  cases hpoint : x.point with
  | none => exact hs.dropped hpoint ▸ List.nil_prefix
  | some point =>
    rcases hs.running point hpoint with hsending | ⟨rfl, _⟩
    · exact sending_isPrefix hsending
    · exact List.nil_prefix

theorem progress_run {x : Sender} {wire : List Cell} {b : Sender × List Cell}
    (hspare : ∀ totalSent, 0 < totalSent → totalSent < bytes.length →
      ¬ Interrupts (.more bytes totalSent))
    (hs : Progress bytes fds x [])
    (h : ReflTransGen (sendPacketInterrupted t Interrupts).move (x, wire) b) :
    ∃ sent, b.2 = wire ++ sent ∧ Progress bytes fds b.1 sent := by
  induction h with
  | refl => exact ⟨[], (List.append_nil wire).symm, hs⟩
  | @tail b c _ hmove ih =>
    obtain ⟨sent, hwire, hprogress⟩ := ih
    have hstep : (sendPacketInterrupted t Interrupts).step b.1 (wire ++ sent) c.1 c.2 :=
      hwire ▸ hmove
    exact progress_step hspare hprogress hstep

/-- What the call has sent when it ends: everything if it returns `Ok`,
nothing otherwise. -/
theorem sent_of_result {x : Sender} {sent : List Cell} {o : SendOutcome}
    (hs : Progress bytes fds x sent) (h : (sendPacketInterrupted t Interrupts).result x = some o) :
    o.totalSent = sent.length ∧
      sent = if o.result = some (.ok ()) then attach fds bytes else [] := by
  obtain ⟨point, totalSent⟩ := x
  cases point with
  | none =>
    cases h
    exact ⟨hs.length.symm, hs.dropped rfl⟩
  | some point =>
    cases point with
    | first _ _ | more _ _ => cases h
    | returned result =>
      cases h
      refine ⟨hs.length.symm, ?_⟩
      rcases hs.running _ rfl with ⟨rfl, hsent⟩ | ⟨hnil, e, he⟩
      · exact hsent
      · cases he
        exact hnil

end OneCall

/-! ## Many calls -/

section ManyCalls

variable {t : Target} {Interrupts : SendPoint → Prop} {Task : Type}

theorem enter_interrupted {p : Packet} {x : Sender}
    (h : (sendPacketInterrupted t Interrupts).enter p = .inr x) :
    ∃ bytes, p.serialize t = .ok bytes ∧ x = ⟨some (.first bytes p.fds), 0⟩ := by
  simp only [sendPacketInterrupted] at h
  split at h
  · cases h
  · next bytes hbytes =>
    cases h
    exact ⟨bytes, hbytes, rfl⟩

/-- A call on packet `p`, as far as it has come. -/
theorem progress_of_moves (hspare : SparesBegunFrames t Interrupts) {p : Packet} {x : Sender}
    {wire : List Cell} {b : Sender × List Cell}
    (henter : (sendPacketInterrupted t Interrupts).enter p = .inr x)
    (h : ReflTransGen (sendPacketInterrupted t Interrupts).move (x, wire) b) :
    ∃ bytes sent, sentCells t p = attach p.fds bytes ∧ b.2 = wire ++ sent ∧
      Progress bytes p.fds b.1 sent := by
  obtain ⟨bytes, hbytes, rfl⟩ := enter_interrupted henter
  have hstart : Progress bytes p.fds ⟨some (.first bytes p.fds), 0⟩ [] := by
    refine ⟨rfl, ?_, fun h => by cases h⟩
    rintro _ ⟨rfl⟩
    exact .inl ⟨rfl, rfl, rfl⟩
  obtain ⟨sent, hwire, hprogress⟩ := progress_run (hspare p bytes · hbytes) hstart h
  exact ⟨bytes, sent, by rw [sentCells, hbytes], hwire, hprogress⟩

theorem okFrames_append (calls later : List (Task × Packet × SendOutcome)) :
    okFrames t (calls ++ later) = okFrames t calls ++ okFrames t later := by
  simp only [okFrames, List.filter_append, List.flatMap_append]

/-- Finished calls have left whole frames, each of a call that returned `Ok`. -/
theorem okFrames_of_history (hspare : SparesBegunFrames t Interrupts)
    {calls : List (Task × Packet × SendOutcome)} {wire : List Cell}
    (h : History (sendPacketInterrupted t Interrupts) [] calls wire) :
    wire = okFrames t calls ∧ ∀ call ∈ calls, ¬ LeftIncomplete t call := by
  induction h with
  | nil => exact ⟨rfl, fun _ hmem => absurd hmem List.not_mem_nil⟩
  | @snoc calls task p o _ _ _ _ _ henter hmoves hres ih =>
    obtain ⟨rfl, hwhole⟩ := ih
    obtain ⟨bytes, sent, hcells, rfl, hprogress⟩ := progress_of_moves hspare henter hmoves
    obtain ⟨htotal, hsent⟩ := sent_of_result hprogress hres
    have hnew : sent = okFrames t [(task, p, o)] ∧ ¬ LeftIncomplete t (task, p, o) := by
      unfold LeftIncomplete
      rw [htotal, hsent, okFrames]
      split
      · next hok =>
        have hreturned : ReturnedOk (task, p, o) := hok
        simp [hreturned, hcells]
      · next hok =>
        have hreturned : ¬ ReturnedOk (task, p, o) := hok
        simp [hreturned]
    refine ⟨?_, fun call hmem => ?_⟩
    · rw [okFrames_append]
      exact congrArg _ hnew.1
    · rcases List.mem_append.mp hmem with hmem | hmem
      · exact hwhole call hmem
      · exact List.mem_singleton.mp hmem ▸ hnew.2

theorem intact_of_spares [DecidableEq Task] (hspare : SparesBegunFrames t Interrupts)
    {s : State (sendPacketInterrupted t Interrupts) Task}
    (hrun : ReflTransGen CancelStep (.init (sendPacketInterrupted t Interrupts) Task []) s) :
    Intact t s := by
  have hserial := serialized_of_cancel hrun
  refine ⟨?_, fun before call after hfin hincomplete => ?_⟩
  · cases hholder : s.holder with
    | none =>
      have hwire := (okFrames_of_history hspare (hserial.free hholder)).1
      exact ⟨Packet.new .display 0, [], by rw [List.append_nil, hwire], List.nil_prefix⟩
    | some task =>
      -- the holder has gone on from where the finished calls left the wire
      obtain ⟨p, x₀, x, wire, hin, henter, hhist, hmoves⟩ := hserial.held task hholder
      obtain ⟨bytes, sent, hcells, hwire, hprogress⟩ := progress_of_moves hspare henter hmoves
      refine ⟨p, sent, ?_, ?_⟩
      · rw [← (okFrames_of_history hspare hhist).1]
        exact hwire
      · rw [hcells]
        exact hprogress.isPrefix
  · obtain ⟨wire, hhist⟩ := hserial.exists_history
    have hwhole := (okFrames_of_history hspare hhist).2 call (by simp [hfin])
    exact absurd hincomplete hwhole

/-- A call that is interrupted after a part of its frame, and one that is not:
the second frame is put behind the incomplete one. -/
theorem exists_corrupted [DecidableEq Task] (task : Task) {p : Packet} {bytes : List UInt8}
    {totalSent : Nat} (hbytes : p.serialize t = .ok bytes) (hpos : 0 < totalSent)
    (hlt : totalSent < bytes.length) (hinterrupts : Interrupts (.more bytes totalSent)) :
    ∃ s : State (sendPacketInterrupted t Interrupts) Task,
      ReflTransGen CancelStep (.init (sendPacketInterrupted t Interrupts) Task []) s ∧
      ¬ Intact t s := by
  have henter : (sendPacketInterrupted t Interrupts).enter p =
      .inr ⟨some (.first bytes p.fds), 0⟩ := by
    simp only [sendPacketInterrupted, hbytes]
  have hloop : SendPoint.loop bytes totalSent = .more bytes totalSent := if_pos hlt
  have hfirst : ∀ {now : Nat} {wire : List Cell}, 1 ≤ now → now ≤ bytes.length →
      (sendPacketInterrupted t Interrupts).move (⟨some (.first bytes p.fds), 0⟩, wire)
        (⟨some (.loop bytes now), 0 + now⟩, wire ++ attach p.fds (bytes.take now)) :=
    fun hone hle => .sent rfl (.sent hone hle)
  -- the first call fails with a part of its frame on the wire
  have hfailed : (sendPacketInterrupted t Interrupts).move
      (⟨some (.loop bytes totalSent), 0 + totalSent⟩, [] ++ attach p.fds (bytes.take totalSent))
      (⟨some (.returned (.error (.io (.os 0)))), 0 + totalSent⟩,
        [] ++ attach p.fds (bytes.take totalSent)) := by
    rw [hloop]
    exact .failed (.os 0) (by simp [SendPoint.pending]) hinterrupts
  obtain ⟨s₁, hrun₁, hfin₁, _, hholder₁, hfree₁⟩ := exists_run_of_call
    (s := .init (sendPacketInterrupted t Interrupts) Task []) (t := task) trivial rfl henter
    (.head (hfirst hpos hlt.le) (.single hfailed)) rfl
  -- the second one sends its frame at once
  have hdone : SendPoint.loop bytes bytes.length = .returned (.ok ()) := if_neg (lt_irrefl _)
  obtain ⟨s₂, hrun₂, hfin₂, _⟩ := exists_run_of_call (s := s₁) (t := task) hfree₁ hholder₁ henter
    (.single (hfirst (by omega) le_rfl)) (by rw [hdone]; rfl)
  refine ⟨s₂, cancelSteps_of_steps (hrun₁.trans hrun₂), fun hintact => ?_⟩
  rw [hfin₁] at hfin₂
  refine hintact.silent [] _ _ hfin₂ ?_ _ (List.mem_singleton.mpr rfl) rfl
  unfold LeftIncomplete
  rw [sentCells, hbytes]
  show 0 < 0 + totalSent ∧ 0 + totalSent < (attach p.fds bytes).length
  rw [length_attach]
  omega

/-- The stream stays intact in every run exactly when failures and drops spare
the calls that have sent a part of their frame. -/
theorem intact_iff [DecidableEq Task] (t : Target) (Interrupts : SendPoint → Prop) (task : Task) :
    (∀ s : State (sendPacketInterrupted t Interrupts) Task,
      ReflTransGen CancelStep (.init (sendPacketInterrupted t Interrupts) Task []) s →
      Intact t s) ↔ SparesBegunFrames t Interrupts := by
  constructor
  · intro h p bytes totalSent hbytes hpos hlt hinterrupts
    obtain ⟨s, hrun, hcorrupted⟩ := exists_corrupted task hbytes hpos hlt hinterrupts
    exact hcorrupted (h s hrun)
  · intro hspare s hrun
    exact intact_of_spares hspare hrun

end ManyCalls

/-- A packet with one word of payload. -/
def wordPacket : Packet := ⟨.ofNat 2, 0, [1, 2, 3, 4], []⟩

/-- A call fails after the first 5 bytes of its frame; the next one puts its
whole frame behind them. -/
theorem frame_left_incomplete :
    ¬ ∀ (t : Target) (Interrupts : SendPoint → Prop)
      (s : State (sendPacketInterrupted t Interrupts) Bool),
      ReflTransGen CancelStep (.init (sendPacketInterrupted t Interrupts) Bool []) s →
      Intact t s := by
  intro h
  let frame := wordPacket.frame ⟨.little, .w64⟩
  have hbytes : wordPacket.serialize ⟨.little, .w64⟩ = .ok frame :=
    Packet.serialize_of_sendable (by decide)
  obtain ⟨s, hrun, hcorrupted⟩ := @exists_corrupted ⟨.little, .w64⟩ (fun _ => True) Bool _ true
    wordPacket frame 5 hbytes (by decide) (by decide) trivial
  exact hcorrupted (h _ _ s hrun)

end WhaleLand
