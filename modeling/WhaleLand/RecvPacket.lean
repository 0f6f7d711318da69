import WhaleLand.Packet
import WhaleLand.Socket
import WhaleLand.Lib.CriticalSection
import WhaleLand.Lib.Transition

/-!
# Receiving a packet

`Connection::recv_packet` as a routine that works under `recv_lock`. It
accumulates 8 header bytes, decodes them, then accumulates the payload. A
point of the routine is a place where it waits for a receive, or its return.

Both phases fill a buffer from the stream (`inevitable_filled`).
`inevitable_header` and `inevitable_payload` say where they lead, whatever the
chunking, and `inevitable_frame` puts them together for a whole frame.
-/

namespace WhaleLand

open Relation Transition CriticalSection

/-! ## The header -/

/-- `size_and_opcode`, from the last four header bytes. -/
def sizeAndOpcode (t : Target) (fixedBuf : List UInt8) : UInt32 :=
  u32FromNeBytes t ((fixedBuf.drop 4).take 4)

/-- `packet_size`. -/
def packetSize (t : Target) (fixedBuf : List UInt8) : Nat :=
  (sizeAndOpcode t fixedBuf >>> 16).toNat

/-- `opcode`. -/
def headerOpcode (t : Target) (fixedBuf : List UInt8) : UInt16 :=
  (sizeAndOpcode t fixedBuf &&& 0xFF).toUInt16

/-- `object_id_u32`. -/
def headerObjectId (t : Target) (fixedBuf : List UInt8) : UInt32 :=
  u32FromNeBytes t (fixedBuf.take 4)

/-! ## The routine -/

/-- Where a call of `recv_packet` is once it has the lock. The first receive of
a phase and those of its loop wait for the same bytes: those of the buffer
after the ones received so far. -/
inductive RecvPoint
  | header (fixedBuf : List UInt8) (fds : List RawFd)
  | payload (objectId : ObjectId) (opcode : UInt16) (payloadLen : Nat) (received : List UInt8)
      (fds : List RawFd)
  | returned (result : Except Error Packet)
deriving DecidableEq

namespace RecvPoint

/-- The length of the buffer that the awaited receive fills. -/
def bufferLen : RecvPoint → Option Nat
  | .header fixedBuf _ => some (8 - fixedBuf.length)
  | .payload _ _ payloadLen received _ => some (payloadLen - received.length)
  | .returned _ => none

/-- Decodes the full header. The first receive of the payload is made whatever
the payload's length. -/
def afterHeader (t : Target) (fixedBuf : List UInt8) (fds : List RawFd) : RecvPoint :=
  if packetSize t fixedBuf < 8 then
    .returned (.error (.packetTooShort (packetSize t fixedBuf) 8))
  else
    match ObjectId.new (headerObjectId t fixedBuf) with
    | none => .returned (.error .zeroObjectId)
    | some objectId =>
      .payload objectId (headerOpcode t fixedBuf) (packetSize t fixedBuf - 8) [] fds

/-- Goes on after a receive that failed or handed over what it received. Only
the header phase takes an empty receive for the end of the stream. -/
def resume (t : Target) : RecvPoint → Except IoError Received → RecvPoint
  | .header _ _, .error e => .returned (.error (.io e))
  | .header fixedBuf fds, .ok got =>
    if got.bytes = [] ∧ got.fds = [] then
      .returned (.error (.io .unexpectedEof))
    else if (fixedBuf ++ got.bytes).length < 8 then
      .header (fixedBuf ++ got.bytes) (fds ++ got.fds)
    else
      afterHeader t (fixedBuf ++ got.bytes) (fds ++ got.fds)
  | .payload _ _ _ _ _, .error e => .returned (.error (.io e))
  | .payload objectId opcode payloadLen received fds, .ok got =>
    if (received ++ got.bytes).length < payloadLen then
      .payload objectId opcode payloadLen (received ++ got.bytes) (fds ++ got.fds)
    else
      .returned (.ok (Packet.newFromExisting objectId opcode (received ++ got.bytes)
        (fds ++ got.fds)))
  | .returned result, _ => .returned result

/-- The call has just taken the lock. -/
def start : RecvPoint := .header [] []

end RecvPoint

/-- `recv_packet` on a socket whose receives succeed. -/
def recvPacket (kernel : Kernel) (t : Target) : Routine Unit Incoming (Except Error Packet) where
  Point := RecvPoint
  enter _ := .inr .start
  step point net point' net' := ∃ len got, point.bufferLen = some len ∧
    Receive kernel len net got net' ∧ point' = point.resume t (.ok got)
  result
    | .returned result => some result
    | _ => none

/-- The steps of a call that has the lock. -/
abbrev recvMove (kernel : Kernel) (t : Target) :
    RecvPoint × Incoming → RecvPoint × Incoming → Prop :=
  (recvPacket kernel t).move

/-! ## Single steps -/

section Steps

variable {kernel : Kernel} {t : Target} {closed : Bool}

theorem ends_returned (result : Except Error Packet) (net : Incoming) :
    Ends (recvMove kernel t) (.returned result, net) := by
  rintro s' ⟨len, got, hlen, _⟩
  cases hlen

/-- With nothing more to receive on an open stream, every receive waits. -/
theorem ends_stalled (point : RecvPoint) : Ends (recvMove kernel t) (point, ⟨[], false⟩) := by
  rintro ⟨_, net'⟩ ⟨len, got, _, hrecv, _⟩
  generalize hnet : (⟨[], false⟩ : Incoming) = net at hrecv
  cases hrecv with
  | data hgot _ =>
    cases List.append_eq_nil_iff.mp (congrArg Incoming.cells hnet).symm with
    | intro hnil _ => exact hgot hnil
  | emptyBuffer _ hcells =>
    cases hnet
    exact hcells rfl
  | endOfStream => cases hnet

theorem move_of_receive {point : RecvPoint} {len : Nat} {got : Received} {net net' : Incoming}
    (hlen : point.bufferLen = some len) (hrecv : Receive kernel len net got net') :
    recvMove kernel t (point, net) (point.resume t (.ok got), net') :=
  ⟨len, got, hlen, hrecv, rfl⟩

/-- With room in the buffer, a receive takes some of the next bytes, or it
finds the end of the stream. -/
theorem receive_cases {len : Nat} {net net' : Incoming} {got : Received}
    (h : Receive kernel len net got net') (hlen : len ≠ 0) :
    (∃ cells, cells ≠ [] ∧ cells.length ≤ len ∧ net.cells = cells ++ net'.cells ∧
      net'.closed = net.closed ∧ got = ⟨bytesOf cells, fdsOf cells⟩) ∨
    (net = ⟨[], true⟩ ∧ net' = net ∧ got = ⟨[], []⟩) := by
  cases h with
  | @data cells rest closed hne hle => exact .inl ⟨cells, hne, hle, rfl, rfl, rfl⟩
  | emptyBuffer hzero => exact absurd hzero hlen
  | endOfStream => exact .inr ⟨rfl, rfl, rfl⟩

/-- A receive with room for less than `todo` takes a prefix of it. -/
theorem receive_isPrefix {todo rest : List Cell} {net' : Incoming} {got : Received}
    (htodo : todo ≠ []) (h : Receive kernel todo.length ⟨todo ++ rest, closed⟩ got net') :
    ∃ cells todo', cells ≠ [] ∧ todo = cells ++ todo' ∧ net' = ⟨todo' ++ rest, closed⟩ ∧
      got = ⟨bytesOf cells, fdsOf cells⟩ := by
  rcases receive_cases h (by simpa using htodo) with
    ⟨cells, hne, hle, hcells, hclosed, rfl⟩ | ⟨hend, _⟩
  · obtain ⟨cells', closed'⟩ := net'
    subst hclosed
    rcases List.append_eq_append_iff.mp hcells with ⟨a, rfl, rfl⟩ | ⟨todo', rfl, rfl⟩
    · rw [List.length_append] at hle
      have ha : a = [] := List.eq_nil_of_length_eq_zero (by omega)
      subst ha
      exact ⟨todo, [], htodo, by simp, by simp, by simp⟩
    · exact ⟨cells, todo', hne, rfl, rfl, rfl⟩
  · simp [htodo] at hend

theorem bytesOf_ne_nil {cells : List Cell} (h : cells ≠ []) : bytesOf cells ≠ [] := by
  simpa [bytesOf] using h

end Steps

/-! ## Behind a packet -/

namespace Kernel

variable (kernel : Kernel)

/-- The descriptors that a call takes off the stream behind its frame: for a
payload without bytes there is one receive, into an empty buffer. -/
def fdsBehind (payload : List UInt8) (rest : List Cell) : List RawFd :=
  if payload = [] then kernel.earlyFds rest else []

/-- The stream behind a frame after the call. -/
def restBehind (payload : List UInt8) (rest : List Cell) : List Cell :=
  if payload = [] then kernel.afterEarly rest else rest

@[simp] theorem fdsBehind_of_ne {payload : List UInt8} (h : payload ≠ []) (rest : List Cell) :
    kernel.fdsBehind payload rest = [] :=
  if_neg h

@[simp] theorem restBehind_of_ne {payload : List UInt8} (h : payload ≠ []) (rest : List Cell) :
    kernel.restBehind payload rest = rest :=
  if_neg h

@[simp] theorem bytesOf_restBehind (payload : List UInt8) (rest : List Cell) :
    bytesOf (kernel.restBehind payload rest) = bytesOf rest := by
  rw [restBehind]
  split
  · exact kernel.bytesOf_afterEarly rest
  · rfl

end Kernel

/-! ## The loops -/

section Loops

variable {kernel : Kernel} {t : Target} {rest : List Cell} {closed : Bool}

/-- The loop of both phases. `filling done` waits for what is missing from
`full` once `done` is in the buffer, and goes on to `filled` when nothing is. -/
theorem inevitable_filled {Post : RecvPoint × Incoming → Prop} {full : List Cell}
    (filling : List Cell → RecvPoint) (filled : RecvPoint) (hfull : full ≠ [])
    (hroom : ∀ done todo, full = done ++ todo → (filling done).bufferLen = some todo.length)
    (hresume : ∀ done cells todo, cells ≠ [] → full = done ++ cells ++ todo →
      (filling done).resume t (.ok ⟨bytesOf cells, fdsOf cells⟩) =
        if todo = [] then filled else filling (done ++ cells))
    (h : Inevitable (recvMove kernel t) Post (filled, ⟨rest, closed⟩)) :
    Inevitable (recvMove kernel t) Post (filling [], ⟨full ++ rest, closed⟩) := by
  refine Inevitable.of_loop
    (fun s => ∃ done todo, full = done ++ todo ∧ todo ≠ [] ∧
      s = (filling done, ⟨todo ++ rest, closed⟩))
    (fun s => s.2.cells.length) ?_ ?_ ⟨[], full, rfl, hfull, rfl⟩
  · rintro _ ⟨done, todo, hsplit, htodo, rfl⟩
    exact ⟨_, move_of_receive (hroom done todo hsplit) (.data htodo le_rfl)⟩
  · rintro _ ⟨_, net'⟩ ⟨done, todo, hsplit, htodo, rfl⟩ ⟨len, got, hbuf, hrecv, rfl⟩
    obtain rfl : len = todo.length := Option.some.inj (hbuf.symm.trans (hroom done todo hsplit))
    obtain ⟨cells, todo', hne, rfl, rfl, rfl⟩ := receive_isPrefix htodo hrecv
    rw [← List.append_assoc] at hsplit
    rw [hresume done cells todo' hne hsplit]
    by_cases htodo' : todo' = []
    · rw [if_pos htodo', htodo']
      exact .inr h
    · have hcells := List.length_pos_iff.mpr hne
      rw [if_neg htodo']
      refine .inl ⟨⟨done ++ cells, todo', hsplit, htodo', rfl⟩, ?_⟩
      simp only [List.length_append]
      omega

/-- However the 8 header bytes arrive, they are decoded next. -/
theorem inevitable_header {Post : RecvPoint × Incoming → Prop} {head : List Cell}
    (hlen : head.length = 8)
    (h : Inevitable (recvMove kernel t) Post
      (.afterHeader t (bytesOf head) (fdsOf head), ⟨rest, closed⟩)) :
    Inevitable (recvMove kernel t) Post (.start, ⟨head ++ rest, closed⟩) := by
  refine inevitable_filled (fun done => .header (bytesOf done) (fdsOf done)) _
    (List.ne_nil_of_length_eq_add_one hlen) ?_ ?_ h
  · rintro done todo rfl
    rw [List.length_append] at hlen
    simp only [RecvPoint.bufferLen, length_bytesOf, Option.some.injEq]
    omega
  · rintro done cells todo hne rfl
    simp only [RecvPoint.resume, bytesOf_ne_nil hne, false_and, if_false, ← bytesOf_append,
      ← fdsOf_append]
    by_cases htodo : todo = []
    · subst htodo
      rw [if_neg (by simpa using hlen.ge), if_pos rfl, List.append_nil]
    · have hpos := List.length_pos_iff.mpr htodo
      rw [if_pos (by simp only [List.length_append, length_bytesOf] at hlen ⊢; omega),
        if_neg htodo]

/-- A receive into an empty buffer takes no byte. -/
theorem receive_zero {cells : List Cell} {net' : Incoming} {got : Received}
    (h : Receive kernel 0 ⟨cells, closed⟩ got net') :
    got = ⟨[], kernel.earlyFds cells⟩ ∧ net' = ⟨kernel.afterEarly cells, closed⟩ := by
  generalize hnet : (⟨cells, closed⟩ : Incoming) = net at h
  cases h with
  | data hne hle => exact absurd (List.eq_nil_of_length_eq_zero (Nat.le_zero.mp hle)) hne
  | emptyBuffer =>
    cases hnet
    exact ⟨rfl, rfl⟩
  | endOfStream =>
    cases hnet
    simp

/-- However the payload arrives, it is returned. An empty payload takes one
more receive, and so something to receive. -/
theorem inevitable_payload {objectId : ObjectId} {opcode : UInt16} {body : List Cell}
    {fds : List RawFd} (hmore : body ≠ [] ∨ rest ≠ [] ∨ closed = true) :
    Inevitable (recvMove kernel t)
      (· = (.returned (.ok ⟨objectId, opcode, bytesOf body,
        fds ++ fdsOf body ++ kernel.fdsBehind (bytesOf body) rest⟩),
        ⟨kernel.restBehind (bytesOf body) rest, closed⟩))
      (.payload objectId opcode body.length [] fds, ⟨body ++ rest, closed⟩) := by
  by_cases hbody : body = []
  · subst hbody
    -- one more receive, which finds nothing at the end or puts nothing into the buffer
    refine .of_steps ?_ ?_
    · by_cases hrest : rest = []
      · obtain rfl : closed = true := by simpa [hrest] using hmore
        subst hrest
        exact ⟨_, move_of_receive rfl .endOfStream⟩
      · exact ⟨_, move_of_receive rfl (.emptyBuffer rfl hrest)⟩
    · rintro ⟨_, net'⟩ ⟨len, got, hbuf, hrecv, rfl⟩
      cases hbuf
      obtain ⟨rfl, rfl⟩ := receive_zero hrecv
      refine .of_end (ends_returned _ _) ?_
      simp [RecvPoint.resume, Packet.newFromExisting, fdsOf, bytesOf, Kernel.fdsBehind,
        Kernel.restBehind]
  · have hstart : RecvPoint.payload objectId opcode body.length [] fds =
        .payload objectId opcode body.length (bytesOf []) (fds ++ fdsOf []) := by
      simp [bytesOf, fdsOf]
    have hpayload := bytesOf_ne_nil hbody
    rw [hstart, kernel.fdsBehind_of_ne hpayload, kernel.restBehind_of_ne hpayload, List.append_nil]
    refine inevitable_filled
      (fun done => .payload objectId opcode body.length (bytesOf done) (fds ++ fdsOf done)) _ hbody
      ?_ ?_ (.of_end (ends_returned _ _) rfl)
    · intro done todo hsplit
      simp only [RecvPoint.bufferLen, length_bytesOf, hsplit, List.length_append,
        Nat.add_sub_cancel_left]
    · intro done cells todo hne hsplit
      simp only [RecvPoint.resume, ← bytesOf_append, List.append_assoc, ← fdsOf_append]
      by_cases htodo : todo = []
      · rw [htodo, List.append_nil] at hsplit
        rw [if_neg (by simp [hsplit]), if_pos htodo, hsplit]
        rfl
      · have hpos := List.length_pos_iff.mpr htodo
        rw [if_pos (by simp only [hsplit, List.length_append, length_bytesOf]; omega),
          if_neg htodo]

/-- A whole frame is returned as a packet, however it arrives, and the stream
is left at its end. The packet gets the descriptors of all its bytes, and those
that are taken off the stream behind it. -/
theorem inevitable_frame {head body : List Cell} {objectId : ObjectId} (hlen : head.length = 8)
    (hsize : packetSize t (bytesOf head) = 8 + body.length)
    (hoid : ObjectId.new (headerObjectId t (bytesOf head)) = some objectId)
    (hmore : body ≠ [] ∨ rest ≠ [] ∨ closed = true) :
    Inevitable (recvMove kernel t)
      (· = (.returned (.ok ⟨objectId, headerOpcode t (bytesOf head), bytesOf body,
        fdsOf (head ++ body) ++ kernel.fdsBehind (bytesOf body) rest⟩),
        ⟨kernel.restBehind (bytesOf body) rest, closed⟩))
      (.start, ⟨head ++ (body ++ rest), closed⟩) := by
  refine inevitable_header hlen ?_
  rw [RecvPoint.afterHeader, if_neg (by omega), hoid, hsize, Nat.add_sub_cancel_left, fdsOf_append]
  exact inevitable_payload hmore

/-- One way for the header to arrive: all at once. -/
theorem move_header {head : List Cell} (hlen : head.length = 8) :
    recvMove kernel t (.start, ⟨head ++ rest, closed⟩)
      (.afterHeader t (bytesOf head) (fdsOf head), ⟨rest, closed⟩) := by
  have hne : head ≠ [] := by
    rintro rfl
    cases hlen
  have hmove : recvMove kernel t (.start, ⟨head ++ rest, closed⟩)
      (RecvPoint.start.resume t (.ok ⟨bytesOf head, fdsOf head⟩), ⟨rest, closed⟩) :=
    move_of_receive rfl (.data hne hlen.le)
  have hafter : RecvPoint.start.resume t (.ok ⟨bytesOf head, fdsOf head⟩) =
      .afterHeader t (bytesOf head) (fdsOf head) := by
    simp [RecvPoint.start, RecvPoint.resume, bytesOf_ne_nil hne, hlen]
  rwa [hafter] at hmove

/-- A header without a payload at the end of a stalled stream: the receive of
the payload waits for bytes that do not come. -/
theorem not_inevitable_of_stalled {Post : RecvPoint × Incoming → Prop} {head : List Cell}
    {objectId : ObjectId} (hlen : head.length = 8) (hsize : packetSize t (bytesOf head) = 8)
    (hoid : ObjectId.new (headerObjectId t (bytesOf head)) = some objectId)
    (hpost : ∀ s, Post s → ∃ result, s.1 = .returned result) :
    ¬ Inevitable (recvMove kernel t) Post (.start, ⟨head, false⟩) := by
  have hmove : recvMove kernel t (.start, ⟨head ++ [], false⟩)
      (.afterHeader t (bytesOf head) (fdsOf head), ⟨[], false⟩) := move_header hlen
  rw [List.append_nil, RecvPoint.afterHeader, if_neg (by omega), hoid, hsize] at hmove
  refine not_inevitable_of_stuck (.single hmove) (ends_stalled _) fun h => ?_
  obtain ⟨result, hresult⟩ := hpost _ h
  cases hresult

end Loops

end WhaleLand
