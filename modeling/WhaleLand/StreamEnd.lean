import WhaleLand.WireRoundTrip

/-!
# The end of the stream

What `recv_packet` does with the last frame of a stream. On a stalled stream,
it waits for a byte after a frame that has no payload
(`deliveredAlone_iff`). On a closed stream, its payload loop receives nothing
over and over again (`terminatesOnClose_iff`).
-/

namespace WhaleLand

open Relation Transition

/-! ## Headers as parts of a stream -/

section Header

variable {kernel : Kernel} {t : Target}

/-- The header is the first 8 bytes, whatever follows. -/
theorem packetSize_head {head : List UInt8} (hlen : head.length = 8) (tail : List UInt8) :
    packetSize t (head ++ tail) = packetSize t head := by
  rw [packetSize, sizeAndOpcode, List.drop_append_of_le_length (by omega),
    List.take_append_of_le_length (by simp [hlen])]
  rfl

theorem headerObjectId_head {head : List UInt8} (hlen : head.length = 8) (tail : List UInt8) :
    headerObjectId t (head ++ tail) = headerObjectId t head := by
  rw [headerObjectId, List.take_append_of_le_length (by omega)]
  rfl

/-- A stream of at least 8 bytes starts with a header. -/
theorem exists_header {cells : List Cell} (h : 8 ≤ cells.length) :
    ∃ head body, cells = head ++ body ∧ head.length = 8 ∧
      packetSize t (bytesOf cells) = packetSize t (bytesOf head) ∧
      headerObjectId t (bytesOf cells) = headerObjectId t (bytesOf head) := by
  have hlen : (cells.take 8).length = 8 := List.length_take_of_le h
  have hbytes : bytesOf cells = bytesOf (cells.take 8) ++ bytesOf (cells.drop 8) := by
    rw [← bytesOf_append, List.take_append_drop]
  refine ⟨cells.take 8, cells.drop 8, (List.take_append_drop 8 cells).symm, hlen, ?_, ?_⟩
  · rw [hbytes, packetSize_head (by rw [length_bytesOf, hlen])]
  · rw [hbytes, headerObjectId_head (by rw [length_bytesOf, hlen])]

/-- A header that is refused is refused at once. -/
theorem inevitable_refused {head rest : List Cell} {closed : Bool} {e : Error}
    (hlen : head.length = 8)
    (h : RecvPoint.afterHeader t (bytesOf head) (fdsOf head) = .returned (.error e)) :
    Inevitable (recvMove kernel t) (· = (.returned (.error e), ⟨rest, closed⟩))
      (.start, ⟨head ++ rest, closed⟩) := by
  refine inevitable_header hlen ?_
  rw [h]
  exact .of_end (ends_returned _ _) rfl

theorem afterHeader_of_zero {fixedBuf : List UInt8} {fds : List RawFd}
    (hsize : 8 ≤ packetSize t fixedBuf) (hoid : headerObjectId t fixedBuf = 0) :
    RecvPoint.afterHeader t fixedBuf fds = .returned (.error .zeroObjectId) := by
  rw [RecvPoint.afterHeader, if_neg (by omega), ObjectId.new_eq_none.mpr hoid]

end Header

/-! ## A stalled stream -/

/-- A frame that is all there is on a stalled stream is delivered, and with its
last byte consumed no receive is awaited. -/
structure DeliveredAlone (kernel : Kernel) (t : Target) (frame : List Cell) : Prop where
  returns : Inevitable (recvMove kernel t) (fun s => ∃ result, s.1 = .returned result)
    (.start, ⟨frame, false⟩)
  noReceive : ∀ s, ReflTransGen (recvMove kernel t) (.start, ⟨frame, false⟩) s → s.2.cells = [] →
    s.1.bufferLen = none

section Stalled

variable {kernel : Kernel} {t : Target}

theorem closed_of_run {s s' : RecvPoint × Incoming} (h : ReflTransGen (recvMove kernel t) s s') :
    s'.2.closed = s.2.closed := by
  induction h with
  | refl => rfl
  | tail _ hmove ih =>
    obtain ⟨len, got, _, hrecv, _⟩ := hmove
    exact hrecv.closed_eq.trans ih

/-- Where every run returns, none is found waiting at the end of the stream. -/
theorem deliveredAlone_of_returns {frame : List Cell}
    (h : Inevitable (recvMove kernel t) (fun s => ∃ result, s.1 = .returned result)
      (.start, ⟨frame, false⟩)) : DeliveredAlone kernel t frame := by
  refine ⟨h, fun s hrun hcells => ?_⟩
  obtain ⟨point, cells, closed⟩ := s
  obtain rfl : closed = false := closed_of_run hrun
  obtain rfl : cells = [] := hcells
  obtain ⟨result, rfl⟩ := h.post _ hrun (ends_stalled point)
  rfl

/-- A frame is delivered on its own unless it is only a header, with an object
id that the header does not already fail for. -/
theorem deliveredAlone_iff {frame : List Cell} (hlen : 8 ≤ frame.length)
    (hsize : packetSize t (bytesOf frame) = frame.length) :
    DeliveredAlone kernel t frame ↔ frame.length ≠ 8 ∨ headerObjectId t (bytesOf frame) = 0 := by
  obtain ⟨head, body, rfl, hhead, hsize', hoid⟩ := exists_header (t := t) hlen
  rw [hsize', List.length_append, hhead] at hsize
  rw [hoid, List.length_append, hhead]
  -- a zero object id is refused before the payload is waited for
  by_cases hzero : headerObjectId t (bytesOf head) = 0
  · refine ⟨fun _ => .inr hzero, fun _ => deliveredAlone_of_returns ?_⟩
    refine (inevitable_refused hhead (afterHeader_of_zero (by omega) hzero)).mono ?_
    rintro _ rfl
    exact ⟨_, rfl⟩
  · have hnew : ObjectId.new (headerObjectId t (bytesOf head)) = some ⟨_, hzero⟩ :=
      ObjectId.new_eq_some.mpr rfl
    constructor
    · rintro ⟨hreturns, _⟩
      refine .inl fun hshort => ?_
      obtain rfl : body = [] := List.eq_nil_of_length_eq_zero (by omega)
      rw [List.append_nil] at hreturns
      exact not_inevitable_of_stalled hhead (by omega) hnew (fun _ h => h) hreturns
    · intro hlong
      have hbody : body ≠ [] := by
        rintro rfl
        exact hlong.elim (fun h => h rfl) hzero
      have hmore : body ≠ [] ∨ ([] : List Cell) ≠ [] ∨ false = true := .inl hbody
      have hframe : Inevitable (recvMove kernel t) _ _ := inevitable_frame hhead hsize hnew hmore
      rw [List.append_nil] at hframe
      refine deliveredAlone_of_returns (hframe.mono ?_)
      rintro _ rfl
      exact ⟨_, rfl⟩

end Stalled

/-! ## A closed stream -/

/-- The stream ends before the frame that it starts with is complete. -/
def Incomplete (t : Target) (cells : List Cell) : Prop :=
  cells.length < 8 ∨ cells.length < packetSize t (bytesOf cells)

/-- On a stream that ends after `cells`, the call returns after finitely many
receives, and an incomplete frame is an unexpected end. -/
def TerminatesOnClose (kernel : Kernel) (t : Target) (cells : List Cell) : Prop :=
  Inevitable (recvMove kernel t)
    (fun s => ∃ result, s.1 = .returned result ∧
      (Incomplete t cells → result = .error (.io .unexpectedEof)))
    (.start, ⟨cells, true⟩)

section Closed

variable {kernel : Kernel} {t : Target}

/-- An end inside the header is noticed. -/
theorem inevitable_eof {cells : List Cell} (h : cells.length < 8) :
    Inevitable (recvMove kernel t) (· = (.returned (.error (.io .unexpectedEof)), ⟨[], true⟩))
      (.start, ⟨cells, true⟩) := by
  -- in the loop: some of the bytes are in the buffer, the others still to come
  refine Inevitable.of_loop
    (fun s => ∃ done todo, cells = done ++ todo ∧
      s = (.header (bytesOf done) (fdsOf done), ⟨todo, true⟩))
    (fun s => s.2.cells.length) ?_ ?_ ⟨[], cells, rfl, rfl⟩
  · rintro _ ⟨done, todo, rfl, rfl⟩
    by_cases htodo : todo = []
    · subst htodo
      exact ⟨_, move_of_receive rfl .endOfStream⟩
    · refine ⟨_, move_of_receive rfl (.all htodo ?_)⟩
      rw [List.length_append] at h
      rw [length_bytesOf]
      omega
  · rintro _ ⟨_, net'⟩ ⟨done, todo, rfl, rfl⟩ ⟨len, got, hbuf, hrecv, rfl⟩
    have hroom : len ≠ 0 := by
      simp only [RecvPoint.bufferLen, length_bytesOf, Option.some.injEq] at hbuf
      rw [List.length_append] at h
      omega
    rcases receive_cases hrecv hroom with
      ⟨got, hne, _, hcells, hclosed, rfl⟩ | ⟨hend, rfl, rfl⟩
    · obtain ⟨todo', closed'⟩ := net'
      obtain rfl : todo = got ++ todo' := hcells
      obtain rfl : closed' = true := hclosed
      have hpos := List.length_pos_iff.mpr hne
      simp only [RecvPoint.resume, bytesOf_ne_nil hne, false_and, if_false, ← bytesOf_append,
        ← fdsOf_append]
      rw [if_pos (by simp only [List.length_append, length_bytesOf] at h ⊢; omega)]
      refine .inl ⟨⟨done ++ got, todo', by simp, rfl⟩, ?_⟩
      simp only [List.length_append]
      omega
    · cases hend
      exact .inr (.of_end (ends_returned _ _) rfl)

/-- The payload loop does not notice an end: it goes on receiving nothing. -/
theorem not_inevitable_payload {Post : RecvPoint × Incoming → Prop} {objectId : ObjectId}
    {opcode : UInt16} {payloadLen : Nat} {fds : List RawFd} {cells : List Cell}
    (h : cells.length < payloadLen) :
    ¬ Inevitable (recvMove kernel t) Post
      (.payload objectId opcode payloadLen [] fds, ⟨cells, true⟩) := by
  -- the trap: even with all that is left, the buffer will not be full
  refine not_inevitable_of_trap
    (fun s => ∃ received fds todo, received.length + todo.length < payloadLen ∧
      s = (.payload objectId opcode payloadLen received fds, ⟨todo, true⟩)) ?_
    ⟨[], fds, cells, by simpa using h, rfl⟩
  rintro _ ⟨received, fds, todo, hshort, rfl⟩
  by_cases htodo : todo = []
  · subst htodo
    refine ⟨_, move_of_receive rfl .endOfStream, received, fds, [], hshort, ?_⟩
    have hagain : received.length < payloadLen := hshort
    simp [RecvPoint.resume, hagain]
  · refine ⟨_, move_of_receive rfl (.all htodo (by omega)), received ++ bytesOf todo,
      fds ++ fdsOf todo, [], ?_, ?_⟩
    · simpa using hshort
    · rw [RecvPoint.resume, if_pos (by simpa using hshort)]

/-- A complete frame, or a header that is refused, makes the call return. -/
theorem inevitable_returns {head body : List Cell} (hlen : head.length = 8)
    (h : packetSize t (bytesOf head) ≤ 8 + body.length) :
    Inevitable (recvMove kernel t) (fun s => ∃ result, s.1 = .returned result)
      (.start, ⟨head ++ body, true⟩) := by
  refine inevitable_header hlen ?_
  rw [RecvPoint.afterHeader]
  split
  · exact .of_end (ends_returned _ _) ⟨_, rfl⟩
  · next hsize =>
    cases ObjectId.new (headerObjectId t (bytesOf head)) with
    | none => exact .of_end (ends_returned _ _) ⟨_, rfl⟩
    | some objectId =>
      -- the payload is the first part of what follows
      obtain ⟨payload, rest, rfl, hpayload⟩ : ∃ payload rest, body = payload ++ rest ∧
          payload.length = packetSize t (bytesOf head) - 8 :=
        ⟨body.take _, body.drop _, (List.take_append_drop _ body).symm,
          List.length_take_of_le (by omega)⟩
      rw [← hpayload]
      refine (inevitable_payload (.inr (.inr rfl))).mono ?_
      rintro _ rfl
      exact ⟨_, rfl⟩

/-- An end inside the payload keeps the call receiving, unless its object id
already made it fail. -/
theorem not_terminates_of_short {head body : List Cell} (hlen : head.length = 8)
    (h : 8 + body.length < packetSize t (bytesOf head))
    (hincomplete : Incomplete t (head ++ body)) : ¬ TerminatesOnClose kernel t (head ++ body) := by
  intro hterm
  by_cases hzero : headerObjectId t (bytesOf head) = 0
  · have hrefused : Inevitable (recvMove kernel t)
        (· = (.returned (.error .zeroObjectId), ⟨body, true⟩)) (.start, ⟨head ++ body, true⟩) :=
      inevitable_refused hlen (afterHeader_of_zero (by omega) hzero)
    obtain ⟨result, hresult, heof⟩ := hrefused.iff_of_eq.mp hterm
    cases hresult
    cases heof hincomplete
  · have hnew : ObjectId.new (headerObjectId t (bytesOf head)) = some ⟨_, hzero⟩ :=
      ObjectId.new_eq_some.mpr rfl
    have hmove : recvMove kernel t (.start, ⟨head ++ body, true⟩)
        (.afterHeader t (bytesOf head) (fdsOf head), ⟨body, true⟩) := move_header hlen
    rw [RecvPoint.afterHeader, if_neg (by omega), hnew] at hmove
    exact not_inevitable_payload (by omega) (hterm.of_run (.single hmove))

/-- The call returns, and with the right result, exactly when the stream ends
inside the header or not before the end of the frame. -/
theorem terminatesOnClose_iff {cells : List Cell} :
    TerminatesOnClose kernel t cells ↔
      cells.length < 8 ∨ packetSize t (bytesOf cells) ≤ cells.length := by
  by_cases hlen : cells.length < 8
  · refine ⟨fun _ => .inl hlen, fun _ => (inevitable_eof hlen).mono ?_⟩
    rintro _ rfl
    exact ⟨_, rfl, fun _ => rfl⟩
  · rw [or_iff_right hlen]
    obtain ⟨head, body, rfl, hhead, hsize, _⟩ := exists_header (t := t) (Nat.not_lt.mp hlen)
    have hcells : (head ++ body).length = 8 + body.length := by rw [List.length_append, hhead]
    constructor
    · intro hterm
      by_contra hshort
      rw [hsize, hcells, Nat.not_le] at hshort
      refine not_terminates_of_short hhead hshort (.inr ?_) hterm
      rwa [hsize, hcells]
    · intro hcomplete
      rw [hsize, hcells] at hcomplete
      refine (inevitable_returns hhead hcomplete).mono ?_
      rintro s ⟨result, hresult⟩
      refine ⟨result, hresult, fun hincomplete => ?_⟩
      rw [Incomplete, hsize] at hincomplete
      omega

end Closed

/-! ## Streams that go wrong -/

/-- An event without arguments: a frame of 8 bytes. -/
def releaseCells : List Cell :=
  attach [] ((Packet.new (.ofNat 3) 0).frame ⟨.little, .w64⟩)

theorem header_only_frame_waits :
    ¬ ∀ (t : Target) (frame : List Cell), 8 ≤ frame.length →
      packetSize t (bytesOf frame) = frame.length → DeliveredAlone .linux t frame := by
  intro h
  have halone := h ⟨.little, .w64⟩ releaseCells (by decide) (by decide)
  have hoid : ObjectId.new (headerObjectId ⟨.little, .w64⟩ (bytesOf releaseCells)) =
      some (.ofNat 3) := by decide
  exact not_inevitable_of_stalled (by decide) (by decide) hoid (fun _ h => h) halone.returns

/-- A frame with a payload of 4 bytes is delivered on its own. -/
theorem deliveredAlone_iff_payload :
    DeliveredAlone .linux ⟨.little, .w64⟩
      (attach [] [3, 0, 0, 0, 0, 0, 12, 0, 1, 2, 3, 4]) :=
  (deliveredAlone_iff (by decide) (by decide)).mpr (.inl (by decide))

/-- A header that announces one byte of payload, and nothing after it. -/
def truncatedCells : List Cell := attach [] [3, 0, 0, 0, 0, 0, 9, 0]

theorem truncated_payload_spins :
    ¬ ∀ (t : Target) (cells : List Cell), TerminatesOnClose .linux t cells := by
  intro h
  have hspins : ¬ TerminatesOnClose .linux ⟨.little, .w64⟩ (truncatedCells ++ []) :=
    not_terminates_of_short (by decide) (by decide) (.inr (by decide))
  exact hspins (h _ _)

end WhaleLand
