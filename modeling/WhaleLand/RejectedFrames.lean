import WhaleLand.StreamEnd

/-!
# Frames with object id 0

What `recv_packet` makes of a stream of frames some of which carry the object
id 0. It refuses such a frame as soon as it has the header, and returns without
having received the payload, which the next call then takes for a header. So
the calls stay at the boundaries of the frames exactly when no refused frame
has a payload (`receivesAll_iff`).
-/

namespace WhaleLand

open Relation Transition

/-! ## Streams of frames -/

/-- A frame: the size in its header is its length. -/
structure WellFramed (t : Target) (frame : List Cell) : Prop where
  header : 8 ≤ frame.length
  size : packetSize t (bytesOf frame) = frame.length

/-- The frame's header carries the object id 0. -/
def NullObject (t : Target) (frame : List Cell) : Prop := headerObjectId t (bytesOf frame) = 0

instance (t : Target) (frame : List Cell) : Decidable (NullObject t frame) :=
  inferInstanceAs (Decidable (_ = _))

/-- The result that belongs to a frame: its object id and its payload, or the
refusal of the null id. -/
def AnswersFrame (t : Target) (frame : List Cell) (result : Except Error Packet) : Prop :=
  match ObjectId.new (headerObjectId t (bytesOf frame)) with
  | none => result = .error .zeroObjectId
  | some objectId =>
    ∃ q, result = .ok q ∧ q.objectId = objectId ∧ q.payload = bytesOf (frame.drop 8)

/-- One call of `recv_packet` after the other: each is bound to return the
result of its frame, with the bytes of the next frames still on the stream. -/
def ReceivesAll (kernel : Kernel) (t : Target) : List (List Cell) → Incoming → Prop
  | [], _ => True
  | frame :: frames, net =>
    Inevitable (recvMove kernel t)
      (fun s => ∃ result, s.1 = .returned result ∧ AnswersFrame t frame result ∧
        bytesOf s.2.cells = bytesOf frames.flatten ∧ ReceivesAll kernel t frames s.2)
      (.start, net)

/-! ## One frame after the other -/

section Frames

variable {kernel : Kernel} {t : Target} {closed : Bool} {frame cells rest : List Cell}
  {frames : List (List Cell)}

theorem eq_nil_iff_of_bytes {a b : List Cell} (h : bytesOf a = bytesOf b) : a = [] ↔ b = [] := by
  rw [← List.map_eq_nil_iff (f := Cell.byte), ← List.map_eq_nil_iff (f := Cell.byte)]
  exact Eq.congr_left h

/-- The bytes of a well-framed frame are a header and a payload of the right
size, whatever descriptors are attached to them. -/
theorem WellFramed.exists_head (hframe : WellFramed t frame)
    (hcells : bytesOf cells = bytesOf frame) :
    ∃ head body, cells = head ++ body ∧ head.length = 8 ∧ frame.length = 8 + body.length ∧
      packetSize t (bytesOf head) = 8 + body.length ∧
      headerObjectId t (bytesOf frame) = headerObjectId t (bytesOf head) ∧
      bytesOf body = bytesOf (frame.drop 8) := by
  have hlen : cells.length = frame.length := by
    rw [← length_bytesOf, hcells, length_bytesOf]
  obtain ⟨head, body, rfl, hhead, hsize, hoid⟩ := exists_header (t := t) (hlen ▸ hframe.header)
  rw [List.length_append, hhead] at hlen
  rw [hcells] at hsize hoid
  refine ⟨head, body, rfl, hhead, hlen.symm, ?_, hoid, ?_⟩
  · rw [← hsize, hframe.size, hlen]
  · have hdrop : bytesOf (frame.drop 8) = (bytesOf frame).drop 8 := List.map_drop
    rw [hdrop, ← hcells, bytesOf_append, List.drop_left' ((length_bytesOf head).trans hhead)]

/-- A refused frame is passed over exactly when there is no payload to leave
behind. -/
theorem receivesAll_cons_of_null (hframe : WellFramed t frame) (hnull : NullObject t frame)
    (hcells : bytesOf cells = bytesOf frame) (hrest : bytesOf rest = bytesOf frames.flatten) :
    ReceivesAll kernel t (frame :: frames) ⟨cells ++ rest, closed⟩ ↔
      frame.length = 8 ∧ ReceivesAll kernel t frames ⟨rest, closed⟩ := by
  unfold NullObject at hnull
  obtain ⟨head, body, rfl, hhead, hlen, hsize, hoid, _⟩ := hframe.exists_head hcells
  have hafter : RecvPoint.afterHeader t (bytesOf head) (fdsOf head) =
      .returned (.error .zeroObjectId) := afterHeader_of_zero (by omega) (hoid ▸ hnull)
  have hempty : frame.length = 8 ↔ body = [] := by
    rw [hlen, ← List.length_eq_zero_iff]
    omega
  rw [ReceivesAll, List.append_assoc, (inevitable_refused hhead hafter).iff_of_eq, hempty]
  constructor
  · rintro ⟨result, _, _, hleft, hnext⟩
    have hleft : bytesOf body ++ bytesOf rest = bytesOf rest := by
      rw [← bytesOf_append, hrest]
      exact hleft
    have hbody : body = [] := List.map_eq_nil_iff.mp (List.append_left_eq_self.mp hleft)
    subst hbody
    exact ⟨rfl, hnext⟩
  · rintro ⟨rfl, hnext⟩
    refine ⟨_, rfl, ?_, hrest, hnext⟩
    unfold AnswersFrame
    rw [ObjectId.new_eq_none.mpr hnull]

/-- Any other frame is received, unless it is an empty one at the end of a
stalled stream. -/
theorem receivesAll_cons_of_object (hframe : WellFramed t frame) (hobject : ¬ NullObject t frame)
    (hcells : bytesOf cells = bytesOf frame) (hrest : bytesOf rest = bytesOf frames.flatten) :
    ReceivesAll kernel t (frame :: frames) ⟨cells ++ rest, closed⟩ ↔
      (frame.length ≠ 8 ∨ frames.flatten ≠ [] ∨ closed = true) ∧
        ReceivesAll kernel t frames
          ⟨kernel.restBehind (bytesOf (frame.drop 8)) rest, closed⟩ := by
  unfold NullObject at hobject
  obtain ⟨head, body, rfl, hhead, hlen, hsize, hoid, hbody⟩ := hframe.exists_head hcells
  rw [hoid] at hobject
  have hnew : ObjectId.new (headerObjectId t (bytesOf head)) = some ⟨_, hobject⟩ :=
    ObjectId.new_eq_some.mpr rfl
  have hempty : frame.length ≠ 8 ↔ body ≠ [] := by
    rw [ne_eq, ne_eq, hlen, ← List.length_eq_zero_iff]
    omega
  have hbehind : frames.flatten ≠ [] ↔ rest ≠ [] := not_congr (eq_nil_iff_of_bytes hrest.symm)
  rw [ReceivesAll, List.append_assoc, hempty, hbehind, ← hbody]
  by_cases hmore : body ≠ [] ∨ rest ≠ [] ∨ closed = true
  · rw [(inevitable_frame hhead hsize hnew hmore).iff_of_eq, and_iff_right hmore]
    constructor
    · rintro ⟨_, _, _, _, hnext⟩
      exact hnext
    · intro hnext
      refine ⟨_, rfl, ?_, (kernel.bytesOf_restBehind _ _).trans hrest, hnext⟩
      unfold AnswersFrame
      rw [hoid, hnew]
      exact ⟨_, rfl, rfl, hbody⟩
  · refine iff_of_false (fun h => ?_) fun h => hmore h.1
    simp only [not_or, not_not, Bool.not_eq_true] at hmore
    obtain ⟨rfl, rfl, rfl⟩ := hmore
    simp only [List.append_nil] at h
    refine not_inevitable_of_stalled hhead hsize hnew ?_ h
    rintro s ⟨result, hresult, _⟩
    exact ⟨result, hresult⟩

theorem WellFramed.ne_nil (hframe : WellFramed t frame) : frame ≠ [] := by
  rintro rfl
  cases hframe.header

/-- The first of several frames, whatever its object id. What becomes of the
others depends on their bytes only. -/
theorem receivesAll_cons_iff (hframe : WellFramed t frame) (hcells : bytesOf cells = bytesOf frame)
    (hrest : bytesOf rest = bytesOf frames.flatten) {Others : Prop}
    (hothers : ∀ rest, bytesOf rest = bytesOf frames.flatten →
      (ReceivesAll kernel t frames ⟨rest, closed⟩ ↔ Others)) :
    ReceivesAll kernel t (frame :: frames) ⟨cells ++ rest, closed⟩ ↔
      (NullObject t frame → frame.length = 8) ∧
      (¬ NullObject t frame → frame.length ≠ 8 ∨ frames.flatten ≠ [] ∨ closed = true) ∧
      Others := by
  by_cases hnull : NullObject t frame
  · rw [receivesAll_cons_of_null hframe hnull hcells hrest, hothers rest hrest]
    simp only [hnull, forall_const, not_true_eq_false, false_implies, true_and]
  · rw [receivesAll_cons_of_object hframe hnull hcells hrest,
      hothers _ ((kernel.bytesOf_restBehind _ _).trans hrest)]
    simp only [hnull, not_false_eq_true, forall_const, false_implies, true_and]

/-- No refused frame has a payload, and the last frame is not an empty one on a
stalled stream. -/
def Receivable (t : Target) (frames : List (List Cell)) (closed : Bool) : Prop :=
  (∀ frame ∈ frames, NullObject t frame → frame.length = 8) ∧
    ∀ frame, frames.getLast? = some frame → ¬ NullObject t frame →
      frame.length ≠ 8 ∨ closed = true

theorem receivesAll_iff_of_bytes (hframes : ∀ frame ∈ frames, WellFramed t frame)
    (hcells : bytesOf cells = bytesOf frames.flatten) :
    ReceivesAll kernel t frames ⟨cells, closed⟩ ↔ Receivable t frames closed := by
  induction frames generalizing cells with
  | nil => simp [ReceivesAll, Receivable]
  | cons frame frames ih =>
    obtain ⟨hframe, hframes⟩ := List.forall_mem_cons.mp hframes
    rw [List.flatten_cons, bytesOf_append] at hcells
    obtain ⟨first, rest, rfl, hfirst, hrest⟩ := List.map_eq_append_iff.mp hcells
    rw [receivesAll_cons_iff hframe hfirst hrest fun _ => ih hframes, Receivable, Receivable,
      List.forall_mem_cons]
    cases frames with
    | nil => simp
    | cons next frames =>
      -- only the last frame can be left waiting: any other is followed by a frame
      have hmore : (next :: frames).flatten ≠ [] := by
        rw [List.flatten_cons]
        exact List.append_ne_nil_of_left_ne_nil (hframes next List.mem_cons_self).ne_nil _
      have hfirst : ¬ NullObject t frame →
          frame.length ≠ 8 ∨ (next :: frames).flatten ≠ [] ∨ closed = true :=
        fun _ => .inr (.inl hmore)
      rw [and_iff_right hfirst, and_assoc, List.getLast?_cons_cons]

/-- The calls return the results of the frames, one after the other and at the
frames' boundaries, exactly when no refused frame has a payload and the last
frame is not an empty one on a stalled stream. -/
theorem receivesAll_iff (hframes : ∀ frame ∈ frames, WellFramed t frame) :
    ReceivesAll kernel t frames ⟨frames.flatten, closed⟩ ↔
      (∀ frame ∈ frames, NullObject t frame → frame.length = 8) ∧
      ∀ frame, frames.getLast? = some frame → ¬ NullObject t frame →
        frame.length ≠ 8 ∨ closed = true :=
  receivesAll_iff_of_bytes hframes rfl

end Frames

/-! ## A refused frame and its neighbour -/

/-- A frame with a payload and the object id 0. -/
def nullFrame : List Cell := attach [] [0, 0, 0, 0, 0, 0, 12, 0, 1, 2, 3, 4]

/-- A header with the object id 0. -/
def nullHeader : List Cell := attach [] [0, 0, 0, 0, 0, 0, 8, 0]

/-- A frame with the object id 2, a payload and a descriptor. -/
def objectFrame : List Cell := attach [5] [2, 0, 0, 0, 0, 0, 12, 0, 5, 6, 7, 8]

/-- A header with the object id 2. -/
def objectHeader : List Cell := attach [] [2, 0, 0, 0, 0, 0, 8, 0]

theorem wellFramed_nullFrame : WellFramed ⟨.little, .w64⟩ nullFrame :=
  ⟨by decide, by decide⟩

theorem wellFramed_objectFrame : WellFramed ⟨.little, .w64⟩ objectFrame :=
  ⟨by decide, by decide⟩

/-- A refused header between two frames, and one that takes the descriptor of
the frame behind it. -/
theorem receivesAll_iff_header :
    ReceivesAll .linux ⟨.little, .w64⟩ [objectFrame, nullHeader, objectHeader, objectFrame]
      ⟨[objectFrame, nullHeader, objectHeader, objectFrame].flatten, false⟩ := by
  refine (receivesAll_iff ?_).mpr ⟨?_, ?_⟩
  · simp only [List.forall_mem_cons]
    exact ⟨wellFramed_objectFrame, ⟨by decide, by decide⟩, ⟨by decide, by decide⟩,
      wellFramed_objectFrame, by simp⟩
  · simp only [List.forall_mem_cons]
    exact ⟨by decide, by decide, by decide, by decide, by simp⟩
  · rintro _ ⟨rfl⟩ _
    exact .inl (by decide)

/-- The payload of a refused frame is left on the stream, in front of the next
frame. -/
theorem refused_payload_left :
    ¬ ∀ (t : Target) (frames : List (List Cell)) (closed : Bool),
      (∀ frame ∈ frames, WellFramed t frame) →
      ReceivesAll .linux t frames ⟨frames.flatten, closed⟩ := by
  intro h
  have hframes : ∀ frame ∈ [nullFrame, objectFrame], WellFramed ⟨.little, .w64⟩ frame := by
    simp [wellFramed_nullFrame, wellFramed_objectFrame]
  have hlen := ((receivesAll_iff_of_bytes hframes rfl).mp (h _ _ true hframes)).1 nullFrame
    List.mem_cons_self (by decide)
  revert hlen
  decide

end WhaleLand
