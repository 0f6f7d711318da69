import Mathlib.Data.Nat.Digits.Lemmas

/-!
# Byte encodings of natural numbers

A number written as a fixed count of bytes, least or most significant byte
first. `toBytes` and `ofBytes` are inverse on `w` bytes and the numbers below
`256 ^ w` (`ofBytes_toBytes`, `toBytes_ofBytes`).
-/

namespace Endian

/-- The order of the bytes of a number in memory. -/
inductive Order
  | little
  | big
deriving DecidableEq, Repr

/-- The bytes of a number in memory order, given least significant first. The
same function undoes it. -/
def Order.arrange : Order → List UInt8 → List UInt8
  | .little, bytes => bytes
  | .big, bytes => bytes.reverse

/-- The `w` low bytes of `n`, least significant first. -/
def littleBytes : Nat → Nat → List UInt8
  | 0, _ => []
  | w + 1, n => UInt8.ofNat n :: littleBytes w (n / 256)

/-- The number that the bytes, least significant first, stand for. -/
def littleValue (bytes : List UInt8) : Nat := Nat.ofDigits 256 (bytes.map UInt8.toNat)

/-- `n` as `w` bytes in memory order. -/
def toBytes (o : Order) (w n : Nat) : List UInt8 := o.arrange (littleBytes w n)

/-- The number that bytes in memory order stand for. -/
def ofBytes (o : Order) (bytes : List UInt8) : Nat := littleValue (o.arrange bytes)

@[simp] theorem arrange_arrange (o : Order) (bytes : List UInt8) :
    o.arrange (o.arrange bytes) = bytes := by
  cases o <;> simp [Order.arrange]

@[simp] theorem length_arrange (o : Order) (bytes : List UInt8) :
    (o.arrange bytes).length = bytes.length := by
  cases o <;> simp [Order.arrange]

@[simp] theorem length_littleBytes (w n : Nat) : (littleBytes w n).length = w := by
  induction w generalizing n with
  | zero => rfl
  | succ w ih => simp [littleBytes, ih]

@[simp] theorem length_toBytes (o : Order) (w n : Nat) : (toBytes o w n).length = w := by
  simp [toBytes]

theorem littleValue_cons (b : UInt8) (bytes : List UInt8) :
    littleValue (b :: bytes) = b.toNat + 256 * littleValue bytes := by
  simp [littleValue, Nat.ofDigits_cons]

theorem littleValue_littleBytes (w n : Nat) : littleValue (littleBytes w n) = n % 256 ^ w := by
  induction w generalizing n with
  | zero => simp [littleBytes, littleValue, Nat.mod_one]
  | succ w ih =>
    rw [littleBytes, littleValue_cons, ih, Nat.pow_succ', Nat.mod_mul]
    simp

theorem littleBytes_littleValue (bytes : List UInt8) :
    littleBytes bytes.length (littleValue bytes) = bytes := by
  induction bytes with
  | nil => rfl
  | cons b bytes ih =>
    have hb : b.toNat < 256 := b.toNat_lt
    have hdiv : (b.toNat + 256 * littleValue bytes) / 256 = littleValue bytes := by omega
    rw [List.length_cons, littleBytes, littleValue_cons, hdiv, ih]
    congr 1
    apply UInt8.toNat_inj.mp
    rw [UInt8.toNat_ofNat']
    omega

/-- Reading back `w` bytes gives the number modulo `256 ^ w`. -/
theorem ofBytes_toBytes (o : Order) (w n : Nat) : ofBytes o (toBytes o w n) = n % 256 ^ w := by
  rw [ofBytes, toBytes, arrange_arrange, littleValue_littleBytes]

theorem ofBytes_toBytes_of_lt (o : Order) {w n : Nat} (h : n < 256 ^ w) :
    ofBytes o (toBytes o w n) = n := by
  rw [ofBytes_toBytes, Nat.mod_eq_of_lt h]

/-- Writing the number that `w` bytes stand for gives the bytes back. -/
theorem toBytes_ofBytes (o : Order) {w : Nat} {bytes : List UInt8} (h : bytes.length = w) :
    toBytes o w (ofBytes o bytes) = bytes := by
  have hlen : (o.arrange bytes).length = w := by rw [length_arrange, h]
  rw [toBytes, ofBytes, ← hlen, littleBytes_littleValue, arrange_arrange]

theorem ofBytes_lt (o : Order) (bytes : List UInt8) : ofBytes o bytes < 256 ^ bytes.length := by
  have hdigit : ∀ d ∈ (o.arrange bytes).map UInt8.toNat, d < 256 := by
    intro d hd
    obtain ⟨b, _, rfl⟩ := List.mem_map.mp hd
    exact b.toNat_lt
  simpa [ofBytes, littleValue] using
    Nat.ofDigits_lt_base_pow_length (by decide : 1 < 256) hdigit

end Endian
