import WhaleLand.RecvPacket

/-!
# From `serialize` to `recv_packet`

`recv_packet` on the frame of a serialized packet. The size and the object id
survive; of the opcode, the receiver keeps only the low byte
(`inevitable_serialized`), so the round trip is exact for the opcodes up to
255 (`wireRoundTrip_iff`).
-/

namespace WhaleLand

open Relation Transition

/-! ## The header of a serialized packet -/

section Header

variable {t : Target} {p : Packet}

/-- The first 8 bytes of the frame. -/
def Packet.header (t : Target) (p : Packet) : List UInt8 :=
  u32ToNeBytes t p.objectId.val ++
    u32ToNeBytes t (Packet.topSizeBytesBottomOpcode (UInt16.ofNat (8 + p.payload.length)) p.opcode)

@[simp] theorem length_header (t : Target) (p : Packet) : (p.header t).length = 8 := by
  simp [Packet.header]

theorem frame_eq (t : Target) (p : Packet) : p.frame t = p.header t ++ p.payload := rfl

theorem headerObjectId_append (bytes : List UInt8) :
    headerObjectId t (p.header t ++ bytes) = p.objectId.val := by
  rw [headerObjectId, Packet.header, List.append_assoc,
    List.take_left' (length_u32ToNeBytes t _), u32FromNeBytes_u32ToNeBytes]

theorem sizeAndOpcode_append (bytes : List UInt8) :
    sizeAndOpcode t (p.header t ++ bytes) =
      Packet.topSizeBytesBottomOpcode (UInt16.ofNat (8 + p.payload.length)) p.opcode := by
  rw [sizeAndOpcode, Packet.header, List.append_assoc, List.drop_left' (length_u32ToNeBytes t _),
    List.take_left' (length_u32ToNeBytes t _), u32FromNeBytes_u32ToNeBytes]

theorem packetSize_append (h : p.Sendable) (bytes : List UInt8) :
    packetSize t (p.header t ++ bytes) = 8 + p.payload.length := by
  have hsize : (UInt16.ofNat (8 + p.payload.length)).toNat = 8 + p.payload.length :=
    UInt16.toNat_ofNat_of_lt' (Nat.lt_succ_of_le h)
  have hop : p.opcode.toNat < 2 ^ 16 := p.opcode.toNat_lt
  rw [packetSize, sizeAndOpcode_append, UInt32.toNat_shiftRight,
    Packet.topSizeBytesBottomOpcode_toNat, hsize, Nat.shiftRight_eq_div_pow]
  simp only [UInt32.reduceToNat, Nat.reduceMod]
  omega

theorem headerOpcode_append (bytes : List UInt8) :
    headerOpcode t (p.header t ++ bytes) = p.opcode &&& 0xFF := by
  apply UInt16.toNat_inj.mp
  rw [headerOpcode, sizeAndOpcode_append, UInt32.toNat_toUInt16, UInt32.toNat_and,
    Packet.topSizeBytesBottomOpcode_toNat, UInt16.toNat_and]
  show (_ &&& (2 ^ 8 - 1)) % 2 ^ 16 = _ &&& (2 ^ 8 - 1)
  rw [Nat.and_two_pow_sub_one_eq_mod, Nat.and_two_pow_sub_one_eq_mod]
  omega

end Header

/-! ## The frame of a serialized packet -/

section Frame

variable {kernel : Kernel} {t : Target} {p : Packet} {rest : List Cell} {closed : Bool}

/-- The packet that is received for the frame of `p`, with the descriptors
that come with it. -/
def Packet.asReceived (p : Packet) (fds : List RawFd) : Packet :=
  { p with opcode := p.opcode &&& 0xFF, fds := fds }

theorem inevitable_serialized {cells : List Cell} (hp : p.Sendable)
    (hcells : bytesOf cells = p.frame t)
    (hmore : p.payload ≠ [] ∨ rest ≠ [] ∨ closed = true) :
    Inevitable (recvMove kernel t)
      (· = (.returned (.ok (p.asReceived (fdsOf cells ++ kernel.fdsBehind p.payload rest))),
        ⟨kernel.restBehind p.payload rest, closed⟩))
      (.start, ⟨cells ++ rest, closed⟩) := by
  obtain ⟨head, body, rfl, hhead, hbody⟩ := List.map_eq_append_iff.mp hcells
  have hlen : head.length = 8 := by
    rw [← List.length_map Cell.byte, hhead]
    exact length_header t p
  have hhead : bytesOf head = p.header t ++ [] := hhead.trans (List.append_nil _).symm
  have hbody : bytesOf body = p.payload := hbody
  have hsize : packetSize t (bytesOf head) = 8 + body.length := by
    rw [hhead, packetSize_append hp, ← hbody, length_bytesOf]
  have hoid : ObjectId.new (headerObjectId t (bytesOf head)) = some p.objectId := by
    rw [hhead, headerObjectId_append, ObjectId.new_val]
  have hmore : body ≠ [] ∨ rest ≠ [] ∨ closed = true := by
    refine hmore.imp_left fun hne => ?_
    rintro rfl
    exact hne hbody.symm
  have hframe : Inevitable (recvMove kernel t) _ _ := inevitable_frame hlen hsize hoid hmore
  rw [hhead, headerOpcode_append, hbody] at hframe
  rw [List.append_assoc]
  exact hframe

end Frame

/-! ## The round trip -/

/-- What a round trip of `p` over the wire promises: the size field is the
frame's length; the frame at the start of a stream, however it arrives and
whatever follows, is received as a packet with the parts of `p`, and no byte
of what follows is consumed; and the only packets that are refused are the
ones that are too long. -/
structure WireRoundTrip (kernel : Kernel) (t : Target) (p : Packet) : Prop where
  size : ∀ bytes, p.serialize t = .ok bytes → packetSize t bytes = bytes.length
  received : ∀ bytes, p.serialize t = .ok bytes →
    ∀ (cells rest : List Cell) (closed : Bool), bytesOf cells = bytes →
      (p.payload ≠ [] ∨ rest ≠ [] ∨ closed = true) →
      Inevitable (recvMove kernel t)
        (fun s => ∃ q rest', s = (.returned (.ok q), ⟨rest', closed⟩) ∧
          bytesOf rest' = bytesOf rest ∧ q.objectId = p.objectId ∧ q.opcode = p.opcode ∧
          q.payload = p.payload)
        (.start, ⟨cells ++ rest, closed⟩)
  tooLong : (∃ actual maximum, p.serialize t = .error (.packetTooLong actual maximum)) ↔
    65535 < 8 + p.payload.length

section RoundTrip

variable {kernel : Kernel} {t : Target} {p : Packet}

theorem mask_eq_self {opcode : UInt16} : opcode &&& 0xFF = opcode ↔ opcode ≤ 0xFF := by
  rw [← UInt16.toNat_inj, UInt16.toNat_and, UInt16.le_iff_toNat_le]
  show opcode.toNat &&& (2 ^ 8 - 1) = opcode.toNat ↔ opcode.toNat ≤ 255
  rw [Nat.and_two_pow_sub_one_eq_mod]
  omega

/-- A received packet has lost the high byte of its opcode. -/
theorem mask_of_wireRoundTrip (hp : p.Sendable) (h : WireRoundTrip kernel t p) :
    p.opcode &&& 0xFF = p.opcode := by
  have hcells := bytesOf_attach p.fds (p.frame t)
  have hrecv := h.received _ (Packet.serialize_of_sendable hp) (attach p.fds (p.frame t)) [] true
    hcells (.inr (.inr rfl))
  obtain ⟨q, _, hq, _, _, hopcode, _⟩ :=
    (inevitable_serialized hp hcells (.inr (.inr rfl))).iff_of_eq.mp hrecv
  cases hq
  exact hopcode

theorem wireRoundTrip_of_mask (h : p.Sendable → p.opcode &&& 0xFF = p.opcode) :
    WireRoundTrip kernel t p where
  size bytes hbytes := by
    obtain ⟨hp, rfl⟩ := Packet.serialize_eq_ok.mp hbytes
    rw [Packet.length_frame, frame_eq, packetSize_append hp]
  received bytes hbytes cells rest closed hcells hmore := by
    obtain ⟨hp, rfl⟩ := Packet.serialize_eq_ok.mp hbytes
    refine (inevitable_serialized hp hcells hmore).mono ?_
    rintro _ rfl
    exact ⟨_, _, rfl, kernel.bytesOf_restBehind _ _, rfl, h hp, rfl⟩
  tooLong := by
    constructor
    · rintro ⟨actual, maximum, herror⟩
      exact Nat.not_le.mp (Packet.serialize_eq_error.mp herror).1
    · intro hlong
      exact ⟨_, _, Packet.serialize_of_not_sendable (Nat.not_le.mpr hlong)⟩

/-- The round trip holds for the opcodes that fit in one byte, and for the
packets that are too long to be sent at all. -/
theorem wireRoundTrip_iff :
    WireRoundTrip kernel t p ↔ p.opcode ≤ 0xFF ∨ 65535 < 8 + p.payload.length := by
  by_cases hp : p.Sendable
  · have hshort : ¬ 65535 < 8 + p.payload.length := Nat.not_lt.mpr hp
    rw [← mask_eq_self, or_iff_left hshort]
    exact ⟨mask_of_wireRoundTrip hp, fun h => wireRoundTrip_of_mask fun _ => h⟩
  · have hlong : 65535 < 8 + p.payload.length := Nat.not_le.mp hp
    exact ⟨fun _ => .inr hlong, fun _ => wireRoundTrip_of_mask fun h => absurd h hp⟩

end RoundTrip

/-- An empty packet whose opcode needs its high byte. -/
def wideOpcodePacket : Packet := Packet.new .display 0x0100

theorem wide_opcode_lost : ¬ ∀ (t : Target) (p : Packet), WireRoundTrip .linux t p := by
  intro h
  have hmask := mask_of_wireRoundTrip (p := wideOpcodePacket) (by decide) (h ⟨.little, .w64⟩ _)
  exact absurd hmask (by decide)

end WhaleLand
