import WhaleLand.Channel

/-!
# Receives that stop midway

`recv_packet` when its receives can fail, and when a call can be dropped where
it waits for one. What the call has received up to then is gone with its
buffers. Where failures and drops happen is a parameter (`Interrupts`): the
calls that return `Ok` return the packets of the stream one after the other, as
they are received without interruptions, exactly when it spares the calls that
have received a part of a frame (`inStep_iff`).
-/

namespace WhaleLand

open Relation Transition CriticalSection

/-! ## The routine -/

/-- A receive succeeds or fails, or the call is dropped while it waits. A call
that has been dropped is at no point. -/
inductive ReceiverStep (kernel : Kernel) (t : Target) (Interrupts : RecvPoint → Prop) :
    Option RecvPoint → Incoming → Option RecvPoint → Incoming → Prop
  | received {point : RecvPoint} {len : Nat} {got : Received} {net net' : Incoming} :
      point.bufferLen = some len → Receive kernel len net got net' →
      ReceiverStep kernel t Interrupts (some point) net (some (point.resume t (.ok got))) net'
  | failed {point : RecvPoint} {net : Incoming} (e : IoError) :
      point.bufferLen ≠ none → Interrupts point →
      ReceiverStep kernel t Interrupts (some point) net (some (point.resume t (.error e))) net
  | dropped {point : RecvPoint} {net : Incoming} :
      point.bufferLen ≠ none → Interrupts point →
      ReceiverStep kernel t Interrupts (some point) net none net

/-- `recv_packet` on a socket whose receives can fail, its calls dropped or not.
A call that was dropped has returned nothing. -/
def recvPacketInterrupted (kernel : Kernel) (t : Target) (Interrupts : RecvPoint → Prop) :
    Routine Unit Incoming (Option (Except Error Packet)) where
  Point := Option RecvPoint
  enter _ := .inr (some .start)
  step := ReceiverStep kernel t Interrupts
  result
    | none => some none
    | some (.returned result) => some (some result)
    | some _ => none

/-! ## Calls in step with the frames -/

section InStep

variable {Task : Type}

/-- The packets that calls have returned, in lock order. -/
def okPackets (calls : List (Task × Unit × Option (Except Error Packet))) : List Packet :=
  calls.filterMap fun call =>
    match call.2.2 with
    | some (.ok q) => some q
    | _ => none

/-- The calls are in step with the packets on the stream: those that returned
`Ok` returned the first ones, as they are received, and the next call starts at
the next one. -/
structure InStep (kernel : Kernel) (t : Target) (ps : List Packet) (closed : Bool)
    {Interrupts : RecvPoint → Prop}
    (s : State (recvPacketInterrupted kernel t Interrupts) Task) : Prop where
  answers : okPackets s.finished =
    (kernel.received ps).take (okPackets s.finished).length
  stream : s.holder = none → s.resource =
    ⟨(kernel.remaining ps (okPackets s.finished).length).flatMap (sentCells t), closed⟩

/-- A call can be at this point with something received of a stream of packets:
with a part of a frame, or with the whole of a frame without a payload. -/
def BegunFrame (kernel : Kernel) (t : Target) (point : RecvPoint) : Prop :=
  ∃ (ps : List Packet) (closed : Bool) (net : Incoming), (∀ p ∈ ps, p.Sendable) ∧
    ReflTransGen (recvMove kernel t) (.start, ⟨ps.flatMap (sentCells t), closed⟩) (point, net) ∧
    point.bufferLen ≠ none ∧ net ≠ ⟨ps.flatMap (sentCells t), closed⟩

/-- No call fails or is dropped once it has received some of a frame. -/
def SparesBegunReceives (kernel : Kernel) (t : Target) (Interrupts : RecvPoint → Prop) : Prop :=
  ∀ point, BegunFrame kernel t point → ¬ Interrupts point

end InStep

/-! ## One call -/

section OneCall

variable {kernel : Kernel} {t : Target} {Interrupts : RecvPoint → Prop}

/-- A call has come to its point by receives, or it has been interrupted at a
point to which it had come by receives. -/
theorem receives_of_moves {net : Incoming} {b : Option RecvPoint × Incoming}
    (h : ReflTransGen (recvPacketInterrupted kernel t Interrupts).move (some .start, net) b) :
    (∃ point, b.1 = some point ∧ ReflTransGen (recvMove kernel t) (.start, net) (point, b.2)) ∨
    (∃ point, ReflTransGen (recvMove kernel t) (.start, net) (point, b.2) ∧ point.bufferLen ≠ none ∧
      Interrupts point ∧ (b.1 = none ∨ ∃ e, b.1 = some (.returned (.error e)))) := by
  induction h with
  | refl => exact .inl ⟨.start, rfl, .refl⟩
  | @tail b d _ hmove ih =>
    obtain ⟨x, net₁⟩ := b
    obtain ⟨x', net₂⟩ := d
    have hstep : ReceiverStep kernel t Interrupts x net₁ x' net₂ := hmove
    rcases ih with ⟨point, hpoint, hreceives⟩ | ⟨point, _, _, _, hover⟩
    · obtain rfl : x = some point := hpoint
      cases hstep with
      | received hlen hrecv =>
        exact .inl ⟨_, rfl, hreceives.tail (move_of_receive hlen hrecv)⟩
      | failed e hpending hinterrupts =>
        refine .inr ⟨point, hreceives, hpending, hinterrupts, .inr ⟨.io e, ?_⟩⟩
        cases point with
        | header _ _ | payload _ _ _ _ _ => rfl
        | returned _ => exact absurd rfl hpending
      | dropped hpending hinterrupts =>
        exact .inr ⟨point, hreceives, hpending, hinterrupts, .inl rfl⟩
    · -- nothing is received after an interruption
      have hover : x = none ∨ ∃ e, x = some (.returned (.error e)) := hover
      rcases hover with rfl | ⟨e, rfl⟩
      · cases hstep
      · cases hstep with
        | received hlen _ => cases hlen
        | failed _ hpending _ | dropped hpending _ => exact absurd rfl hpending

theorem moves_of_receives {net : Incoming} {b : RecvPoint × Incoming}
    (h : ReflTransGen (recvMove kernel t) (.start, net) b) :
    ReflTransGen (recvPacketInterrupted kernel t Interrupts).move (some .start, net)
      (some b.1, b.2) := by
  induction h with
  | refl => exact .refl
  | @tail b d _ hmove ih =>
    obtain ⟨len, got, hlen, hrecv, hpoint⟩ := hmove
    have hstep : ReceiverStep kernel t Interrupts (some b.1) b.2 (some d.1) d.2 :=
      hpoint ▸ .received hlen hrecv
    exact ih.tail hstep

/-- The call has returned no packet. -/
def NoPacket (o : Option (Except Error Packet)) : Prop :=
  o = none ∨ ∃ e, o = some (.error e)

/-- A call that is spared returns the next packet, or it returns none and
leaves everything as it was. -/
theorem call_in_step (hspare : SparesBegunReceives kernel t Interrupts) {ps : List Packet}
    (hps : ∀ p ∈ ps, p.Sendable) {closed : Bool} {i : Nat} {x : Option RecvPoint}
    {net : Incoming} {o : Option (Except Error Packet)}
    (hmoves : ReflTransGen (recvPacketInterrupted kernel t Interrupts).move
      (some .start, ⟨(kernel.remaining ps i).flatMap (sentCells t), closed⟩) (x, net))
    (hres : (recvPacketInterrupted kernel t Interrupts).result x = some o) :
    (∃ q, (kernel.received ps)[i]? = some q ∧ o = some (.ok q) ∧
      net = ⟨(kernel.remaining ps (i + 1)).flatMap (sentCells t), closed⟩) ∨
    (NoPacket o ∧ net = ⟨(kernel.remaining ps i).flatMap (sentCells t), closed⟩) := by
  rcases receives_of_moves hmoves with
    ⟨point, hpoint, hreceives⟩ | ⟨point, hreceives, hpending, hinterrupts, hover⟩
  · obtain rfl : x = some point := hpoint
    cases point with
    | header _ _ | payload _ _ _ _ _ => cases hres
    | returned result =>
      cases hres
      obtain ⟨hanswered, hnet⟩ := call_in_order hps hreceives rfl
      rcases Nat.lt_or_ge i ps.length with hlt | hge
      · have hlen : (kernel.received ps).length = ps.length := Kernel.length_received
        have hq := List.getElem?_eq_getElem (hlen ▸ hlt)
        exact .inl ⟨_, hq, congrArg some (hanswered.packet _ hq), hnet⟩
      · obtain ⟨_, rfl⟩ := hanswered.atEnd hge
        rw [Kernel.remaining_of_le (Nat.le_succ_of_le hge)] at hnet
        rw [Kernel.remaining_of_le hge]
        exact .inr ⟨.inr ⟨_, rfl⟩, hnet⟩
  · refine .inr ⟨?_, ?_⟩
    · have hover : x = none ∨ ∃ e, x = some (.returned (.error e)) := hover
      rcases hover with rfl | ⟨e, rfl⟩
      · cases hres
        exact .inl rfl
      · cases hres
        exact .inr ⟨e, rfl⟩
    · by_contra hsome
      exact hspare point ⟨_, closed, net, Kernel.sendable_of_remaining hps, hreceives, hpending,
        hsome⟩ hinterrupts

end OneCall

/-! ## Many calls -/

section ManyCalls

variable {kernel : Kernel} {t : Target} {Interrupts : RecvPoint → Prop} {ps : List Packet}
  {closed : Bool} {Task : Type}

theorem okPackets_snoc (calls : List (Task × Unit × Option (Except Error Packet))) (task : Task)
    (u : Unit) (q : Packet) :
    okPackets (calls ++ [(task, u, some (.ok q))]) = okPackets calls ++ [q] := by
  simp [okPackets]

theorem okPackets_snoc_of_noPacket
    (calls : List (Task × Unit × Option (Except Error Packet))) (task : Task) (u : Unit)
    {o : Option (Except Error Packet)} (ho : NoPacket o) :
    okPackets (calls ++ [(task, u, o)]) = okPackets calls := by
  rcases ho with rfl | ⟨e, rfl⟩ <;> simp [okPackets]

/-- The calls of a history are in step with the packets. -/
theorem inStep_of_history (hspare : SparesBegunReceives kernel t Interrupts)
    (hps : ∀ p ∈ ps, p.Sendable) {calls : List (Task × Unit × Option (Except Error Packet))}
    {net : Incoming}
    (h : History (recvPacketInterrupted kernel t Interrupts)
      ⟨ps.flatMap (sentCells t), closed⟩ calls net) :
    okPackets calls = (kernel.received ps).take (okPackets calls).length ∧
      net = ⟨(kernel.remaining ps (okPackets calls).length).flatMap (sentCells t), closed⟩ := by
  induction h with
  | nil =>
    refine ⟨rfl, ?_⟩
    show _ = (⟨(kernel.remaining ps 0).flatMap (sentCells t), closed⟩ : Incoming)
    rw [Kernel.remaining_zero]
  | @snoc calls task u o _ point _ _ _ henter hmoves hres ih =>
    obtain ⟨hanswers, rfl⟩ := ih
    cases henter
    rcases call_in_step hspare hps hmoves hres with ⟨q, hq, rfl, hnet⟩ | ⟨ho, hnet⟩
    · rw [okPackets_snoc, List.length_append, List.length_singleton]
      refine ⟨?_, hnet⟩
      rw [List.take_add_one, hq, ← hanswers]
      rfl
    · rw [okPackets_snoc_of_noPacket calls task u ho]
      exact ⟨hanswers, hnet⟩

variable [DecidableEq Task]

theorem inStep_of_spares (hspare : SparesBegunReceives kernel t Interrupts)
    (hps : ∀ p ∈ ps, p.Sendable) {s : State (recvPacketInterrupted kernel t Interrupts) Task}
    (hrun : ReflTransGen CancelStep
      (.init (recvPacketInterrupted kernel t Interrupts) Task ⟨ps.flatMap (sentCells t), closed⟩)
      s) :
    InStep kernel t ps closed s := by
  have hserial := serialized_of_cancel hrun
  refine ⟨?_, fun hfree => (inStep_of_history hspare hps (hserial.free hfree)).2⟩
  obtain ⟨_, hhist⟩ := hserial.exists_history
  exact (inStep_of_history hspare hps hhist).1

/-- A call that is dropped with something received: the next one does not start
at a frame that is still to be returned. -/
theorem exists_out_of_step (task : Task) {point : RecvPoint} (hbegun : BegunFrame kernel t point)
    (hinterrupts : Interrupts point) :
    ∃ (ps : List Packet) (closed : Bool)
      (s : State (recvPacketInterrupted kernel t Interrupts) Task),
      (∀ p ∈ ps, p.Sendable) ∧
      ReflTransGen CancelStep
        (.init (recvPacketInterrupted kernel t Interrupts) Task
          ⟨ps.flatMap (sentCells t), closed⟩) s ∧
      ¬ InStep kernel t ps closed s := by
  obtain ⟨ps, closed, net, hps, hreceives, hpending, hsome⟩ := hbegun
  have hdropped : (recvPacketInterrupted kernel t Interrupts).move (some point, net) (none, net) :=
    ReceiverStep.dropped hpending hinterrupts
  obtain ⟨s, hrun, hfin, hnet, hfree, _⟩ := exists_run_of_call
    (s := .init (recvPacketInterrupted kernel t Interrupts) Task ⟨ps.flatMap (sentCells t), closed⟩)
    (t := task) (c := ()) trivial rfl rfl ((moves_of_receives hreceives).tail hdropped) rfl
  refine ⟨ps, closed, s, hps, cancelSteps_of_steps hrun, fun hinstep => hsome ?_⟩
  have hstream := hinstep.stream hfree
  rw [hnet, hfin] at hstream
  rw [hstream]
  exact congrArg (fun ps => (⟨ps.flatMap (sentCells t), closed⟩ : Incoming)) Kernel.remaining_zero

/-- In every run on every stream of packets the calls stay in step with the
packets, exactly when failures and drops spare the calls that have received
some of a frame. -/
theorem inStep_iff (kernel : Kernel) (t : Target) (Interrupts : RecvPoint → Prop) (task : Task) :
    (∀ (ps : List Packet) (closed : Bool)
      (s : State (recvPacketInterrupted kernel t Interrupts) Task),
      (∀ p ∈ ps, p.Sendable) →
      ReflTransGen CancelStep
        (.init (recvPacketInterrupted kernel t Interrupts) Task
          ⟨ps.flatMap (sentCells t), closed⟩) s →
      InStep kernel t ps closed s) ↔ SparesBegunReceives kernel t Interrupts := by
  constructor
  · intro h point hbegun hinterrupts
    obtain ⟨ps, closed, s, hps, hrun, hout⟩ := exists_out_of_step task hbegun hinterrupts
    exact hout (h ps closed s hps hrun)
  · intro hspare ps closed s hps hrun
    exact inStep_of_spares hspare hps hrun

end ManyCalls

section Start

variable {kernel : Kernel} {t : Target}

theorem resume_ne_start (point : RecvPoint) (got : Received) :
    point.resume t (.ok got) ≠ .start := by
  unfold RecvPoint.start
  cases point with
  | header fixedBuf fds =>
    intro h
    rw [RecvPoint.resume] at h
    split at h
    · cases h
    · next hsome =>
      split at h
      · simp only [RecvPoint.header.injEq, List.append_eq_nil_iff] at h
        exact hsome ⟨h.1.2, h.2.2⟩
      · unfold RecvPoint.afterHeader at h
        repeat' split at h
        all_goals cases h
  | payload _ _ _ _ _ =>
    intro h
    rw [RecvPoint.resume] at h
    split at h <;> cases h
  | returned _ => exact RecvPoint.noConfusion

/-- So a call may fail or be dropped while it waits for its first bytes. -/
theorem sparesBegunReceives_start : SparesBegunReceives kernel t (· = .start) := by
  rintro _ ⟨ps, closed, net, _, hreceives, _, hsome⟩ rfl
  rcases hreceives.cases_tail with hstart | ⟨_, _, _, _, _, _, hpoint⟩
  · cases hstart
    exact hsome rfl
  · exact resume_ne_start _ _ hpoint.symm

end Start

end WhaleLand
