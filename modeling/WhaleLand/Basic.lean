import WhaleLand.Lib.Endian

/-!
# Shared types

The target the library is compiled for, object ids, the library's errors, and
the two ways in which a call can fail: with an `Error` value, or by a panic.
-/

namespace WhaleLand

/-! ## The target -/

/-- The width of `usize`. -/
inductive PointerWidth
  | w32
  | w64
deriving DecidableEq, Repr

def PointerWidth.bits : PointerWidth → Nat
  | .w32 => 32
  | .w64 => 64

/-- What the code depends on about its target: the order of `to_ne_bytes` and
`from_ne_bytes`, and the width of `usize`. -/
structure Target where
  endian : Endian.Order
  pointerWidth : PointerWidth
deriving DecidableEq, Repr

/-- `usize::MAX`. -/
def Target.usizeMax (t : Target) : Nat := 2 ^ t.pointerWidth.bits - 1

/-- `isize::MAX`, the most bytes that one Rust allocation, and so a slice, a
`Vec<u8>` or a `String`, can hold. -/
def Target.isizeMax (t : Target) : Nat := 2 ^ (t.pointerWidth.bits - 1) - 1

/-- `u32::MAX`. -/
def u32Max : Nat := 0xFFFFFFFF

/-- `u32::to_ne_bytes`. -/
def u32ToNeBytes (t : Target) (v : UInt32) : List UInt8 := Endian.toBytes t.endian 4 v.toNat

/-- `u32::from_ne_bytes`. -/
def u32FromNeBytes (t : Target) (bytes : List UInt8) : UInt32 :=
  UInt32.ofNat (Endian.ofBytes t.endian bytes)

/-- The bytes of a `&str`. -/
def strBytes (s : String) : List UInt8 := s.toByteArray.data.toList

/-- `std::str::from_utf8`. -/
def strFromUtf8 (bytes : List UInt8) : Option String := String.fromUTF8? ⟨bytes.toArray⟩

/-! ## Object ids -/

/-- `ObjectId(NonZero<u32>)`. -/
structure ObjectId where
  val : UInt32
  nonzero : val ≠ 0
deriving DecidableEq, Repr

/-- `ObjectId::new`, and `NonZero::new` followed by `map(ObjectId)`. -/
def ObjectId.new (objectId : UInt32) : Option ObjectId :=
  if h : objectId = 0 then none else some ⟨objectId, h⟩

/-- `ObjectId::DISPLAY`. -/
def ObjectId.display : ObjectId := ⟨1, by decide⟩

/-- The id with a number, which must not be 0; for concrete packets. -/
def ObjectId.ofNat (n : Nat) : ObjectId := (ObjectId.new (UInt32.ofNat n)).getD .display

/-- `NewObjectId(ObjectId)`. -/
structure NewObjectId where
  objectId : ObjectId
deriving DecidableEq, Repr

/-- A new object together with its interface, as `new_id` arguments without a
known interface carry it. -/
structure NewObject where
  objectId : ObjectId
  interface : String
  interfaceVersion : UInt32
deriving DecidableEq, Repr

/-- A file descriptor, a C `int`. -/
abbrev RawFd := Int32

/-- A 24.8 fixed-point number. -/
structure Fixed where
  innerValue : Int32
deriving DecidableEq, Repr

/-! ## Failure -/

/-- The I/O errors: the one the library makes itself, and those of the
operating system. -/
inductive IoError
  | unexpectedEof
  | os (code : Nat)
deriving DecidableEq, Repr

/-- The library's `Error`. -/
inductive Error
  | io (e : IoError)
  | packetTooLong (actual maximum : Nat)
  | packetTooShort (actual minimum : Nat)
  | fieldOutOfBounds (actual maximum : Nat)
  | fdOutOfBounds (total : Nat)
  | stringMisplacedNul (actual : Option Nat) (expected : Nat)
  | stringInvalidUtf8 (data : List UInt8)
  | incompleteRead (readBytes totalBytes readFds totalFds : Nat)
  | zeroObjectId
  | noEventHandler (objectId : ObjectId)
  | connectionDeleted
deriving DecidableEq, Repr

/-- How a call can end without a value. Arithmetic that overflows, a slice out
of range, a failed `assert!` and an `unwrap` of nothing panic. -/
inductive Fault
  | error (e : Error)
  | panic
deriving DecidableEq, Repr

/-! ## Facts about words, strings and ids -/

@[simp] theorem length_u32ToNeBytes (t : Target) (v : UInt32) :
    (u32ToNeBytes t v).length = 4 := by
  simp [u32ToNeBytes]

@[simp] theorem u32FromNeBytes_u32ToNeBytes (t : Target) (v : UInt32) :
    u32FromNeBytes t (u32ToNeBytes t v) = v := by
  rw [u32FromNeBytes, u32ToNeBytes, Endian.ofBytes_toBytes_of_lt _ v.toNat_lt]
  exact UInt32.ofNat_toNat

theorem u32ToNeBytes_u32FromNeBytes {t : Target} {bytes : List UInt8} (h : bytes.length = 4) :
    u32ToNeBytes t (u32FromNeBytes t bytes) = bytes := by
  have hlt : Endian.ofBytes t.endian bytes < 2 ^ 32 := by
    have := Endian.ofBytes_lt t.endian bytes
    rwa [h] at this
  rw [u32ToNeBytes, u32FromNeBytes, UInt32.toNat_ofNat_of_lt' hlt, Endian.toBytes_ofBytes _ h]

theorem strFromUtf8_eq_some {bytes : List UInt8} {s : String} :
    strFromUtf8 bytes = some s ↔ strBytes s = bytes := by
  unfold strFromUtf8 String.fromUTF8? strBytes
  constructor
  · intro h
    split at h
    · cases h
      rfl
    · cases h
  · rintro rfl
    have hs : (⟨s.toByteArray.data.toList.toArray⟩ : ByteArray) = s.toByteArray := by simp
    rw [dif_pos (hs ▸ s.isValidUTF8)]
    simp [String.fromUTF8]

@[simp] theorem ObjectId.new_val (oid : ObjectId) : ObjectId.new oid.val = some oid := by
  simp [ObjectId.new, oid.nonzero]

theorem ObjectId.new_eq_some {v : UInt32} {oid : ObjectId} :
    ObjectId.new v = some oid ↔ v = oid.val := by
  unfold ObjectId.new
  constructor
  · intro h
    split at h
    · cases h
    · cases h
      rfl
  · rintro rfl
    rw [dif_neg oid.nonzero]

@[simp] theorem ObjectId.new_eq_none {v : UInt32} : ObjectId.new v = none ↔ v = 0 := by
  unfold ObjectId.new
  split <;> simp [*]

/-- What fits in one allocation can be indexed and added to with room to spare. -/
theorem Target.isizeMax_add_lt (t : Target) : t.isizeMax + 8 < t.usizeMax := by
  unfold isizeMax usizeMax
  cases t.pointerWidth <;> decide

end WhaleLand
