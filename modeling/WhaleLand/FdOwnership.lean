import WhaleLand.Framing
import WhaleLand.Codec

/-!
# Descriptors and the events they belong to

A peer may send several events with one `sendmsg`, which attaches the
descriptors of all of them to the first byte of the call. `recv_packet` gives a
packet the descriptors of the frame's own bytes, so all of them go to the first
event of the call. `readsAll_iff` says when every event still gets its own, as
far as descriptors come with the byte that they are attached to
(`WithFirstByte`).
-/

namespace WhaleLand

open Relation Transition Wlproto

/-! ## Events and batches -/

/-- An event: its signature, its argument values and the packet of them. -/
structure Event where
  args : List Arg
  values : List Value
  packet : Packet

/-- The packet is a well-formed message of the event: the values fit the
signature, the payload is in the wire format, and there are as many
descriptors as there are descriptor arguments. -/
structure Event.WellFormed (t : Target) (e : Event) : Prop where
  wellTyped : WellTyped e.args e.values
  payload : EncodesAll t e.values e.packet.payload
  fds : fdsOfValues e.values = e.packet.fds
  sendable : e.packet.Sendable
  allocated : e.packet.Allocated t

/-- One `sendmsg` call: the frames of a run of events, the descriptors of all
of them attached to the first byte. -/
def batchCells (t : Target) (batch : List Event) : List Cell :=
  attach (batch.flatMap fun e => e.packet.fds) (batch.flatMap fun e => e.packet.frame t)

/-- One call of `recv_packet` after the other, each packet decoded by the
signature of its event: every call is bound to return a packet that decodes to
the event's values, its descriptors among them. -/
def ReadsAll (kernel : Kernel) (t : Target) : List Event → Incoming → Prop
  | [], _ => True
  | e :: es, net =>
    Inevitable (recvMove kernel t)
      (fun s => ∃ q, s.1 = .returned (.ok q) ∧ decodeArgs t e.args q = .ok e.values ∧
        ReadsAll kernel t es s.2)
      (.start, net)

/-- What is assumed of the kernel: all descriptors of a `sendmsg` are handed
over with the receive that takes its first byte. A kernel that hands them over
to a receive into an empty buffer does so where there is no such receive, as no
event is without a payload. -/
def WithFirstByte (kernel : Kernel) (es : List Event) : Prop :=
  kernel.handsOverEarly = true → ∀ e ∈ es, e.packet.payload ≠ []

/-! ## Which events get their descriptors -/

section Reads

variable {kernel : Kernel} {t : Target} {rest : List Cell} {closed : Bool}

/-- The packet received for the event's frame decodes to its values when the
frame carries the event's descriptors, and only then. -/
theorem decodeArgs_asReceived {e : Event} (he : e.WellFormed t) {fds : List RawFd} :
    decodeArgs t e.args (e.packet.asReceived fds) = .ok e.values ↔ fds = e.packet.fds := by
  constructor
  · intro h
    obtain ⟨_, _, hfds⟩ := decodeArgs_ok h
    exact hfds.symm.trans he.fds
  · rintro rfl
    exact decodeArgs_of_encodes ⟨he.allocated.payload, he.allocated.fds⟩ he.wellTyped he.payload
      he.fds

/-- The stream goes on far enough for the event to be delivered. -/
def Delivered (e : Event) (rest : List Cell) (closed : Bool) : Prop :=
  e.packet.payload ≠ [] ∨ rest ≠ [] ∨ closed = true

/-- Under the assumption, a call takes nothing off the stream behind its frame. -/
theorem nothing_behind {payload : List UInt8} (h : kernel.handsOverEarly = true → payload ≠ []) :
    kernel.fdsBehind payload rest = [] ∧ kernel.restBehind payload rest = rest := by
  by_cases hpayload : payload = []
  · have hearly : ¬ kernel.handsOverEarly = true := fun hearly => h hearly hpayload
    simp [Kernel.fdsBehind, Kernel.restBehind, Kernel.earlyFds, Kernel.afterEarly, hearly]
  · exact ⟨kernel.fdsBehind_of_ne hpayload rest, kernel.restBehind_of_ne hpayload rest⟩

theorem readsAll_cons_iff {e : Event} (he : e.WellFormed t) {es : List Event}
    (hkernel : WithFirstByte kernel (e :: es)) {cells : List Cell}
    (hcells : bytesOf cells = e.packet.frame t) :
    ReadsAll kernel t (e :: es) ⟨cells ++ rest, closed⟩ ↔
      Delivered e rest closed ∧ fdsOf cells = e.packet.fds ∧
        ReadsAll kernel t es ⟨rest, closed⟩ := by
  obtain ⟨hfds, hrest⟩ : _ ∧ kernel.restBehind e.packet.payload rest = rest :=
    nothing_behind fun hearly => hkernel hearly e List.mem_cons_self
  by_cases hmore : Delivered e rest closed
  · rw [ReadsAll, (inevitable_serialized he.sendable hcells hmore).iff_of_eq, hfds, hrest,
      List.append_nil, ← decodeArgs_asReceived he]
    constructor
    · rintro ⟨q, hq, hdecode, hrest⟩
      cases hq
      exact ⟨hmore, hdecode, hrest⟩
    · rintro ⟨_, hdecode, hrest⟩
      exact ⟨_, rfl, hdecode, hrest⟩
  · refine ⟨fun h => ?_, fun h => absurd h.1 hmore⟩
    -- an empty event at the end of a stalled stream is not even received
    simp only [Delivered, not_or, not_not, Bool.not_eq_true] at hmore
    obtain ⟨hpayload, rfl, rfl⟩ := hmore
    rw [frame_eq, hpayload] at hcells
    have hlen : cells.length = 8 := by
      rw [← length_bytesOf, hcells, List.append_nil, length_header]
    rw [ReadsAll, List.append_nil] at h
    have hoid : ObjectId.new (headerObjectId t (bytesOf cells)) = some e.packet.objectId := by
      rw [hcells, headerObjectId_append, ObjectId.new_val]
    refine absurd h (not_inevitable_of_stalled hlen ?_ hoid ?_)
    · rw [hcells, packetSize_append he.sendable, hpayload]
      rfl
    · rintro s ⟨q, hq, _⟩
      exact ⟨_, hq⟩

/-- Events with the cells that their frames arrive in: each gets the
descriptors of its own cells. -/
theorem readsAll_iff_of_cells (rest : List Cell) (closed : Bool)
    (frames : List (Event × List Cell))
    (hkernel : WithFirstByte kernel (frames.map Prod.fst))
    (hframes : ∀ x ∈ frames, x.1.WellFormed t ∧ bytesOf x.2 = x.1.packet.frame t) :
    ReadsAll kernel t (frames.map Prod.fst) ⟨frames.flatMap Prod.snd ++ rest, closed⟩ ↔
      (∀ x ∈ frames, fdsOf x.2 = x.1.packet.fds) ∧
      ∀ e, (frames.map Prod.fst).getLast? = some e → Delivered e rest closed := by
  induction frames with
  | nil => simp [ReadsAll]
  | cons x frames ih =>
    obtain ⟨⟨he, hcells⟩, hframes⟩ := List.forall_mem_cons.mp hframes
    have hothers : WithFirstByte kernel (frames.map Prod.fst) :=
      fun hearly e he => hkernel hearly e (List.mem_cons_of_mem _ he)
    rw [List.map_cons] at hkernel ⊢
    rw [List.flatMap_cons, List.append_assoc, readsAll_cons_iff he hkernel hcells,
      ih hothers hframes, List.forall_mem_cons]
    cases frames with
    | nil => simp [and_comm]
    | cons y frames =>
      -- only the last event can be left waiting: any other is followed by a frame
      have hmore : Delivered x.1 ((y :: frames).flatMap Prod.snd ++ rest) closed := by
        refine .inr (.inl fun hnil => ?_)
        have hy := (hframes y List.mem_cons_self).2
        rw [List.flatMap_cons, List.append_assoc, List.append_eq_nil_iff] at hnil
        rw [hnil.1] at hy
        exact Packet.frame_ne_nil t _ hy.symm
      rw [and_iff_right hmore, and_assoc, List.map_cons, List.getLast?_cons_cons]

/-- The events of a batch with the cells that their frames arrive in. -/
def batchFrames (t : Target) : List Event → List (Event × List Cell)
  | [] => []
  | e :: es =>
    (e, attach ((e :: es).flatMap fun e => e.packet.fds) (e.packet.frame t)) ::
      es.map fun e => (e, attach [] (e.packet.frame t))

theorem batchFrames_fst (batch : List Event) : (batchFrames t batch).map Prod.fst = batch := by
  cases batch with
  | nil => rfl
  | cons e es => simp [batchFrames, Function.comp_def]

theorem batchFrames_snd (batch : List Event) :
    (batchFrames t batch).flatMap Prod.snd = batchCells t batch := by
  cases batch with
  | nil => rfl
  | cons e es =>
    have hframes : (e :: es).flatMap (fun e => e.packet.frame t) =
        e.packet.frame t ++ es.flatMap fun e => e.packet.frame t := List.flatMap_cons
    rw [batchFrames, List.flatMap_cons, List.flatMap_map, batchCells, hframes,
      attach_append _ (Packet.frame_ne_nil t _), attach_nil_flatMap]

theorem batchFrames_bytes {batch : List Event} {x : Event × List Cell}
    (hx : x ∈ batchFrames t batch) : x.1 ∈ batch ∧ bytesOf x.2 = x.1.packet.frame t := by
  cases batch with
  | nil => cases hx
  | cons e es =>
    rcases List.mem_cons.mp hx with rfl | hx
    · exact ⟨List.mem_cons_self, bytesOf_attach _ _⟩
    · obtain ⟨e', he', rfl⟩ := List.mem_map.mp hx
      exact ⟨List.mem_cons_of_mem e he', bytesOf_attach _ _⟩

/-- The first event of a batch gets the descriptors of all of them, the others
get none. -/
theorem batchFrames_fds (batch : List Event) :
    (∀ x ∈ batchFrames t batch, fdsOf x.2 = x.1.packet.fds) ↔
      ∀ e ∈ batch.tail, e.packet.fds = [] := by
  cases batch with
  | nil => simp [batchFrames]
  | cons e es =>
    have hframe : ∀ (e : Event) (fds : List RawFd), fdsOf (attach fds (e.packet.frame t)) = fds :=
      fun e fds => fdsOf_attach fds (Packet.frame_ne_nil t _)
    simp only [batchFrames, List.forall_mem_cons, List.forall_mem_map, hframe, List.tail_cons,
      List.flatMap_cons, List.append_right_eq_self, List.flatMap_eq_nil_iff]
    constructor
    · rintro ⟨hfirst, _⟩
      exact hfirst
    · intro h
      exact ⟨h, fun e he => (h e he).symm⟩

/-- Every event is decoded with its own descriptors exactly when, in each
`sendmsg` call, only the first event has any, and the last event of all is not
an empty one at the end of a stalled stream. -/
theorem readsAll_iff {batches : List (List Event)} (hkernel : WithFirstByte kernel batches.flatten)
    (hwf : ∀ batch ∈ batches, ∀ e ∈ batch, e.WellFormed t) :
    ReadsAll kernel t batches.flatten ⟨batches.flatMap (batchCells t) ++ rest, closed⟩ ↔
      (∀ batch ∈ batches, ∀ e ∈ batch.tail, e.packet.fds = []) ∧
      ∀ e, batches.flatten.getLast? = some e → Delivered e rest closed := by
  have hframes : ∀ x ∈ batches.flatMap (batchFrames t),
      x.1.WellFormed t ∧ bytesOf x.2 = x.1.packet.frame t := by
    intro x hx
    obtain ⟨batch, hbatch, hx⟩ := List.mem_flatMap.mp hx
    obtain ⟨hmem, hbytes⟩ := batchFrames_bytes hx
    exact ⟨hwf batch hbatch x.1 hmem, hbytes⟩
  have hevents : (batches.flatMap (batchFrames t)).map Prod.fst = batches.flatten := by
    simp only [List.map_flatMap, batchFrames_fst, List.flatMap_id']
  have hcells : (batches.flatMap (batchFrames t)).flatMap Prod.snd =
      batches.flatMap (batchCells t) := by
    simp only [List.flatMap_assoc, batchFrames_snd]
  have hiff := readsAll_iff_of_cells rest closed _ (hevents ▸ hkernel) hframes
  rw [hevents, hcells] at hiff
  rw [hiff, List.forall_mem_flatMap]
  simp only [batchFrames_fds]

end Reads

/-! ## A word and a keymap -/

/-- An event with one word. -/
def wordEvent : Event := ⟨[⟨"serial", .uint, none⟩], [.uint 7], ⟨.ofNat 3, 0, [7, 0, 0, 0], []⟩⟩

/-- The event that hands over a keymap: its format, a descriptor and its size. -/
def keymapEvent : Event where
  args := [⟨"format", .uint, none⟩, ⟨"fd", .fileDescriptor, none⟩, ⟨"size", .uint, none⟩]
  values := [.uint 1, .fd 7, .uint 0x1000]
  packet := ⟨.ofNat 4, 0, [1, 0, 0, 0, 0, 0x10, 0, 0], [7]⟩

theorem wordEvent_wellFormed : wordEvent.WellFormed ⟨.little, .w64⟩ where
  wellTyped := .cons rfl .nil
  payload := ⟨[7, 0, 0, 0], [], rfl, rfl, rfl⟩
  fds := rfl
  sendable := by decide
  allocated := ⟨by decide, by decide⟩

theorem keymapEvent_wellFormed : keymapEvent.WellFormed ⟨.little, .w64⟩ where
  wellTyped := .cons rfl (.cons rfl (.cons rfl .nil))
  payload := ⟨[1, 0, 0, 0], _, rfl, ⟨[], _, rfl, ⟨[0, 0x10, 0, 0], [], rfl, rfl, rfl⟩,
    rfl⟩, rfl⟩
  fds := rfl
  sendable := by decide
  allocated := ⟨by decide, by decide⟩

/-- Sent with one call, the keymap in front, both events are read. -/
theorem readsAll_iff_keymap_first :
    ReadsAll .linux ⟨.little, .w64⟩ [keymapEvent, wordEvent]
      ⟨[[keymapEvent, wordEvent]].flatMap (batchCells ⟨.little, .w64⟩) ++ [], false⟩ := by
  have hkernel : WithFirstByte .linux [[keymapEvent, wordEvent]].flatten := fun _ => by
    simp [keymapEvent, wordEvent]
  have hwf : ∀ batch ∈ [[keymapEvent, wordEvent]], ∀ e ∈ batch, e.WellFormed ⟨.little, .w64⟩ := by
    simp [wordEvent_wellFormed, keymapEvent_wellFormed]
  refine (readsAll_iff hkernel hwf).mpr ⟨by simp [wordEvent], ?_⟩
  rintro _ ⟨rfl⟩
  exact .inl (by decide)

/-- With the word in front, it gets the keymap's descriptor and is refused. -/
theorem descriptor_misdelivered :
    ¬ ∀ (kernel : Kernel) (t : Target) (batches : List (List Event)) (rest : List Cell)
      (closed : Bool), WithFirstByte kernel batches.flatten →
      (∀ batch ∈ batches, batch ≠ [] ∧ ∀ e ∈ batch, e.WellFormed t) →
      (rest ≠ [] ∨ closed = true) →
      ReadsAll kernel t batches.flatten ⟨batches.flatMap (batchCells t) ++ rest, closed⟩ := by
  intro h
  have hkernel : WithFirstByte .linux [wordEvent, keymapEvent] := fun _ => by
    simp [keymapEvent, wordEvent]
  have hreads := h .linux ⟨.little, .w64⟩ [[wordEvent, keymapEvent]] [] true hkernel
    (by simp [wordEvent_wellFormed, keymapEvent_wellFormed]) (.inr rfl)
  have hframes : ∀ x ∈ batchFrames ⟨.little, .w64⟩ [wordEvent, keymapEvent],
      x.1.WellFormed ⟨.little, .w64⟩ ∧ bytesOf x.2 = x.1.packet.frame ⟨.little, .w64⟩ := by
    intro x hx
    obtain ⟨hmem, hbytes⟩ := batchFrames_bytes hx
    refine ⟨?_, hbytes⟩
    rcases List.mem_cons.mp hmem with heq | hmem
    · exact heq ▸ wordEvent_wellFormed
    · exact List.mem_singleton.mp hmem ▸ keymapEvent_wellFormed
  have hiff : ReadsAll .linux _ _ _ ↔ _ := readsAll_iff_of_cells [] true _
    ((batchFrames_fst [wordEvent, keymapEvent]).symm ▸ hkernel) hframes
  rw [batchFrames_fst, batchFrames_snd, batchFrames_fds] at hiff
  have hfds := (hiff.mp hreads).1 keymapEvent (by simp)
  cases hfds

end WhaleLand
