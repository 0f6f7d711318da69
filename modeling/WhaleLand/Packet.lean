import WhaleLand.Basic

/-!
# Packets and their serialization

`Packet` with its `push_*` functions and `serialize`. Bytes are pushed in the
target's order; a push panics where the source asserts or unwraps.
-/

namespace WhaleLand

structure Packet where
  objectId : ObjectId
  opcode : UInt16
  payload : List UInt8
  fds : List RawFd
deriving DecidableEq, Repr

namespace Packet

/-- What Rust promises of every `Vec`: its elements fit in one allocation. -/
structure Allocated (t : Target) (p : Packet) : Prop where
  payload : p.payload.length ≤ t.isizeMax
  fds : 4 * p.fds.length ≤ t.isizeMax

/-- `Packet::new`. -/
def new (objectId : ObjectId) (opcode : UInt16) : Packet := ⟨objectId, opcode, [], []⟩

/-- `Packet::new_from_existing`. -/
def newFromExisting (objectId : ObjectId) (opcode : UInt16) (payload : List UInt8)
    (fds : List RawFd) : Packet :=
  ⟨objectId, opcode, payload, fds⟩

/-- `payload.extend`. -/
def extend (p : Packet) (bytes : List UInt8) : Packet := { p with payload := p.payload ++ bytes }

/-! ## The push functions -/

def pushUint (t : Target) (p : Packet) (value : UInt32) : Packet := p.extend (u32ToNeBytes t value)

/-- `i32::to_ne_bytes` gives the bytes of the two's complement word. -/
def pushInt (t : Target) (p : Packet) (value : Int32) : Packet :=
  p.extend (u32ToNeBytes t value.toUInt32)

def pushFixed (t : Target) (p : Packet) (value : Fixed) : Packet :=
  p.extend (u32ToNeBytes t value.innerValue.toUInt32)

/-- The bytes that align `len` bytes to 4. -/
def realignCount (len : Nat) : Nat := (4 - len % 4) % 4

def pushStr (t : Target) (p : Packet) (value : String) : Except Fault Packet := do
  if 0 ∈ strBytes value then throw .panic -- assert!(!value.contains("\0"))
  let lenWithNul := (strBytes value).length + 1
  if u32Max < lenWithNul then throw .panic -- try_into().unwrap()
  let p := p.extend (u32ToNeBytes t (UInt32.ofNat lenWithNul))
  let p := p.extend (strBytes value)
  let p := p.extend [0x00]
  return p.extend (List.replicate (realignCount lenWithNul) 0x00)

def pushArray (t : Target) (p : Packet) (array : List UInt8) : Except Fault Packet := do
  let len := array.length
  if u32Max < len then throw .panic -- try_into().unwrap()
  let p := p.extend (u32ToNeBytes t (UInt32.ofNat len))
  let p := p.extend array
  return p.extend (List.replicate (realignCount len) 0x00)

def pushObject (t : Target) (p : Packet) (objId : Option ObjectId) : Packet :=
  match objId with
  | some oi => p.pushUint t oi.val
  | none => p.pushUint t 0

def pushNewIdKnownInterface (t : Target) (p : Packet) (newId : NewObjectId) : Packet :=
  p.pushObject t (some newId.objectId)

def pushNewIdUnknownInterface (t : Target) (p : Packet) (newObj : NewObject) :
    Except Fault Packet := do
  let p ← p.pushStr t newObj.interface
  let p := p.pushUint t newObj.interfaceVersion
  return p.pushObject t (some newObj.objectId)

def pushFd (p : Packet) (fd : RawFd) : Packet := { p with fds := p.fds ++ [fd] }

/-! ## Serialization -/

/-- `u16::MAX`, the longest frame. -/
def maxSize : Nat := 0xFFFF

/-- The second header word: the frame's size above the opcode. -/
def topSizeBytesBottomOpcode (sizeU16 opcode : UInt16) : UInt32 :=
  (sizeU16.toUInt32 <<< 16) ||| (opcode.toUInt32 <<< 0)

/-- `Packet::serialize`. The three slices of `buf` are written side by side. -/
def serialize (t : Target) (p : Packet) : Except Error (List UInt8) :=
  let totalBytes := 8 + p.payload.length
  if totalBytes > maxSize then
    .error (.packetTooLong totalBytes maxSize)
  else
    let sizeU16 := UInt16.ofNat totalBytes
    .ok (u32ToNeBytes t p.objectId.val ++
      u32ToNeBytes t (topSizeBytesBottomOpcode sizeU16 p.opcode) ++ p.payload)

/-- The packet is short enough to be sent. -/
def Sendable (p : Packet) : Prop := 8 + p.payload.length ≤ maxSize

instance (p : Packet) : Decidable p.Sendable := inferInstanceAs (Decidable (_ ≤ _))

/-- The frame of a packet: what `serialize` returns for a sendable one. -/
def frame (t : Target) (p : Packet) : List UInt8 :=
  u32ToNeBytes t p.objectId.val ++
    u32ToNeBytes t (topSizeBytesBottomOpcode (UInt16.ofNat (8 + p.payload.length)) p.opcode) ++
    p.payload

/-! ## Lemmas -/

@[simp] theorem length_frame (t : Target) (p : Packet) :
    (p.frame t).length = 8 + p.payload.length := by
  simp only [frame, List.length_append, length_u32ToNeBytes]

theorem frame_ne_nil (t : Target) (p : Packet) : p.frame t ≠ [] := by
  intro h
  have := congrArg List.length h
  simp at this

theorem serialize_of_sendable {t : Target} {p : Packet} (h : p.Sendable) :
    p.serialize t = .ok (p.frame t) := by
  simp only [serialize, frame]
  rw [if_neg (Nat.not_lt.mpr h)]

theorem serialize_of_not_sendable {t : Target} {p : Packet} (h : ¬ p.Sendable) :
    p.serialize t = .error (.packetTooLong (8 + p.payload.length) maxSize) := by
  simp only [serialize]
  rw [if_pos (Nat.not_le.mp h)]

/-- `serialize` returns the frame of a packet that is short enough, and nothing
else. -/
theorem serialize_eq_ok {t : Target} {p : Packet} {bytes : List UInt8} :
    p.serialize t = .ok bytes ↔ p.Sendable ∧ bytes = p.frame t := by
  by_cases h : p.Sendable
  · rw [serialize_of_sendable h]
    constructor
    · rintro ⟨⟩
      exact ⟨h, rfl⟩
    · rintro ⟨_, rfl⟩
      rfl
  · rw [serialize_of_not_sendable h]
    constructor
    · rintro ⟨⟩
    · rintro ⟨h', _⟩
      exact absurd h' h

theorem serialize_eq_error {t : Target} {p : Packet} {e : Error} :
    p.serialize t = .error e ↔
      ¬ p.Sendable ∧ e = .packetTooLong (8 + p.payload.length) maxSize := by
  by_cases h : p.Sendable
  · rw [serialize_of_sendable h]
    simp [h]
  · rw [serialize_of_not_sendable h]
    simp [h, eq_comm]

/-- The header word as a number. -/
theorem topSizeBytesBottomOpcode_toNat (sizeU16 opcode : UInt16) :
    (topSizeBytesBottomOpcode sizeU16 opcode).toNat = sizeU16.toNat * 2 ^ 16 + opcode.toNat := by
  have hsize : sizeU16.toNat < 2 ^ 16 := sizeU16.toNat_lt
  have hop : opcode.toNat < 2 ^ 16 := opcode.toNat_lt
  have hmod : sizeU16.toNat * 2 ^ 16 % 2 ^ 32 = sizeU16.toNat * 2 ^ 16 := by omega
  simp only [topSizeBytesBottomOpcode, UInt32.toNat_or, UInt32.toNat_shiftLeft,
    UInt16.toNat_toUInt32]
  simp only [Nat.shiftLeft_eq, UInt32.reduceToNat, Nat.reduceMod, hmod, Nat.pow_zero, Nat.mul_one]
  rw [Nat.mod_eq_of_lt (by omega : opcode.toNat < 2 ^ 32), ← Nat.shiftLeft_eq,
    ← Nat.shiftLeft_add_eq_or_of_lt hop, Nat.shiftLeft_eq]

/-- The second word of an empty packet: size 8, opcode 1. -/
example : (Packet.new .display 1).serialize ⟨.big, .w64⟩ = .ok [0, 0, 0, 1, 0, 8, 0, 1] := by
  decide

end Packet

end WhaleLand
