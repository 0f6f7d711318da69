import WhaleLand.Fixed

/-!
# Ranges of shared memory

The offset and the length that `map_read_only` and `map_read_write` compute
from a range. Only the sign of the length is checked. The additions and
subtractions before that are not, and an overflow stops a debug build and wraps
in a release build. `rangeToOffsetAndLength_exact_iff`: the result is the exact
one in both builds if and only if no bound is moved past `i64::MAX` and the
difference of the two fits.
-/

namespace WhaleLand

namespace SharedMemory

open MachineInt Format

/-! ## Definitions -/

/-- `off_t`. -/
abbrev I64 := IntType.i64.Val

/-- `usize`; the offsets of `mmap` are an `i64` where it has 64 bits. -/
def usize : Format := { signed := false, bits := 64, bits_pos := Nat.succ_pos 63 }

/-- `std::ops::Bound` -/
inductive Bound
  | included (i : I64)
  | excluded (i : I64)
  | unbounded
deriving DecidableEq, Repr

/-- The `io::Error`s: one of the operating system, and the one of the kind
`FileTooLarge`. -/
inductive IoError
  | os (code : Nat)
  | fileTooLarge
deriving DecidableEq, Repr

/-- How a call ends without a value. -/
inductive Failure
  | error (e : IoError)
  | panic
deriving DecidableEq, Repr

/-- What `metadata` returns, as far as ranges depend on it. -/
structure Metadata where
  length : I64
deriving DecidableEq, Repr

/-- An operation on `i64` with the exact result `n`. -/
def i64Op (checked : Bool) (n : Int) : Except Failure I64 :=
  match IntType.i64.format.arith checked n with
  | some v => .ok v
  | none => .error .panic

/-- The `offset` of a range with the bound `start`. -/
def offset (checked : Bool) (start : Bound) : Except Failure I64 :=
  match start with
  | .included i => .ok i
  | .excluded i => i64Op checked (value i + 1)
  | .unbounded => .ok 0

/-- `length_i64`, for a range with the bound `finish`. -/
def lengthI64 (checked : Bool) (metadata : Except IoError Metadata) (finish : Bound)
    (offset : I64) : Except Failure I64 :=
  match finish with
  | .included i => do
    let past ← i64Op checked (value i + 1)
    i64Op checked (value past - value offset)
  | .excluded i => i64Op checked (value i - value offset)
  | .unbounded => do
    let m ← metadata.mapError .error
    i64Op checked (value m.length - value offset)

/-- The last step, `try_into` with its error replaced. -/
def tryIntoUsize (lengthI64 : I64) : Except Failure usize.Val :=
  match usize.tryFrom (value lengthI64) with
  | some length => .ok length
  | none => .error (.error .fileTooLarge)

/-- `range_to_offset_and_length`, in a build where overflow is `checked` or
not, on an object with the given `metadata()`. -/
def rangeToOffsetAndLength (checked : Bool) (metadata : Except IoError Metadata)
    (start finish : Bound) : Except Failure (I64 × usize.Val) := do
  let offset ← offset checked start
  let lengthI64 ← lengthI64 checked metadata finish offset
  let length ← tryIntoUsize lengthI64
  return (offset, length)

/-! ## What a range stands for -/

/-- The first integer of a range. -/
def first : Bound → Int
  | .included i => value i
  | .excluded i => value i + 1
  | .unbounded => 0

/-- The exclusive upper end of a range in an object. -/
def past (length : I64) : Bound → Int
  | .included i => value i + 1
  | .excluded i => value i
  | .unbounded => value length

/-- From the first integer to the end. -/
def span (length : I64) (start finish : Bound) : Int := past length finish - first start

/-- The numbers of `i64`. -/
abbrev Fits (n : Int) : Prop := IntType.i64.format.InRange n

/-- What a caller relies on: the first integer of the range and the number of
integers up to its end, where they are a region, and an error elsewhere. -/
def Exact (checked : Bool) (length : I64) (start finish : Bound) : Prop :=
  if Fits (first start) ∧ 0 ≤ span length start finish ∧ Fits (span length start finish) then
    ∃ r, rangeToOffsetAndLength checked (.ok ⟨length⟩) start finish = .ok r ∧
      value r.1 = first start ∧ value r.2 = span length start finish
  else
    ∃ e, rangeToOffsetAndLength checked (.ok ⟨length⟩) start finish = .error (.error e)

def i64Min : I64 := .intMin 64

def i64Max : I64 := .intMax 64

/-- No operation on the way leaves `i64`: the two bounds that are moved by one
are not at its end, and the difference fits. -/
def NoOverflow (length : I64) (start finish : Bound) : Prop :=
  start ≠ .excluded i64Max ∧ finish ≠ .included i64Max ∧ Fits (span length start finish)

instance (length : I64) (start finish : Bound) : Decidable (NoOverflow length start finish) :=
  inferInstanceAs (Decidable (_ ∧ _ ∧ _))

/-! ## The operations -/

section Operations

variable {checked : Bool} {n : Int}

theorem i64Op_of_fits (h : Fits n) : i64Op checked n = .ok (.ofInt _ n) := by
  unfold i64Op
  rw [arith_of_inRange checked h]

theorem i64Op_checked (h : ¬ Fits n) : i64Op true n = .error .panic := by
  unfold i64Op
  rw [arith_of_not_inRange h]

theorem fits_value (v : I64) : Fits (value v) := inRange_value v

/-- Only the last number of the type has no successor in it. -/
theorem fits_value_add_one_iff {i : I64} : Fits (value i + 1) ↔ i ≠ i64Max := by
  have hmax : value i64Max = 2 ^ 63 - 1 := by decide
  have hi : -(2 ^ 64 : Nat) ≤ 2 * value i ∧ 2 * value i < (2 ^ 64 : Nat) := fits_value i
  rw [ne_eq, ← value_injective.eq_iff, hmax]
  show (-(2 ^ 64 : Nat) ≤ 2 * (value i + 1) ∧ 2 * (value i + 1) < (2 ^ 64 : Nat)) ↔ _
  omega

end Operations

section Ranges

variable {checked : Bool} {length : I64} {start finish : Bound}

theorem fits_first_iff : Fits (first start) ↔ start ≠ .excluded i64Max := by
  cases start with
  | included i => exact iff_of_true (fits_value i) nofun
  | excluded i => exact fits_value_add_one_iff.trans (not_congr (by simp))
  | unbounded => exact iff_of_true (fits_value 0) nofun

theorem fits_past_iff : Fits (past length finish) ↔ finish ≠ .included i64Max := by
  cases finish with
  | included i => exact fits_value_add_one_iff.trans (not_congr (by simp))
  | excluded i => exact iff_of_true (fits_value i) nofun
  | unbounded => exact iff_of_true (fits_value length) nofun

theorem noOverflow_iff : NoOverflow length start finish ↔
    Fits (first start) ∧ Fits (past length finish) ∧ Fits (span length start finish) := by
  unfold NoOverflow
  rw [fits_first_iff, fits_past_iff]

variable (checked) in
theorem offset_of_fits (h : Fits (first start)) :
    ∃ o, offset checked start = .ok o ∧ value o = first start := by
  cases start with
  | included i => exact ⟨i, rfl, rfl⟩
  | excluded i => exact ⟨_, i64Op_of_fits h, value_ofInt_of_inRange h⟩
  | unbounded => exact ⟨0, rfl, rfl⟩

theorem offset_checked (h : ¬ Fits (first start)) : offset true start = .error .panic := by
  cases start with
  | included i => exact absurd (fits_value i) h
  | excluded i => exact i64Op_checked h
  | unbounded => exact absurd (fits_value 0) h

/-- In all three cases the length is computed by one subtraction from the
exclusive upper end. -/
theorem lengthI64_of_past_fits (h : Fits (past length finish)) (o : I64) :
    lengthI64 checked (.ok ⟨length⟩) finish o =
      i64Op checked (past length finish - value o) := by
  cases finish with
  | included i =>
    show (i64Op checked (past length (.included i)) >>= fun v =>
      i64Op checked (value v - value o)) = _
    rw [i64Op_of_fits h]
    show i64Op checked (value _ - value o) = _
    rw [value_ofInt_of_inRange h]
  | excluded i => rfl
  | unbounded => rfl

theorem lengthI64_checked (h : ¬ Fits (past length finish)) (o : I64) :
    lengthI64 true (.ok ⟨length⟩) finish o = .error .panic := by
  cases finish with
  | included i =>
    show (i64Op true (past length (.included i)) >>= fun v =>
      i64Op true (value v - value o)) = _
    rw [i64Op_checked h]
    rfl
  | excluded i => exact absurd (fits_value i) h
  | unbounded => exact absurd (fits_value length) h

/-- A difference that fits is a length if and only if it is not negative. -/
theorem usize_inRange_iff {n : Int} (h : Fits n) : usize.InRange n ↔ 0 ≤ n := by
  have hlt : 2 * n < (2 ^ 64 : Nat) := h.2
  show (0 ≤ n ∧ n < (2 ^ 64 : Nat)) ↔ _
  omega

theorem tryIntoUsize_of_nonneg {n : Int} (h : Fits n) (hn : 0 ≤ n) :
    tryIntoUsize (.ofInt _ n) = .ok (.ofInt _ n) := by
  unfold tryIntoUsize tryFrom
  rw [value_ofInt_of_inRange h, if_pos ((usize_inRange_iff h).mpr hn)]

theorem tryIntoUsize_of_neg {n : Int} (h : Fits n) (hn : ¬ 0 ≤ n) :
    tryIntoUsize (.ofInt _ n) = .error (.error .fileTooLarge) := by
  unfold tryIntoUsize tryFrom
  rw [value_ofInt_of_inRange h, if_neg (mt (usize_inRange_iff h).mp hn)]

/-! ## Exact ranges -/

variable (checked) in
/-- Without an overflow, only the sign of the difference is left to decide. -/
theorem run_of_noOverflow (h : NoOverflow length start finish) :
    ∃ o, value o = first start ∧
      rangeToOffsetAndLength checked (.ok ⟨length⟩) start finish =
        (tryIntoUsize (.ofInt _ (span length start finish))).map (o, ·) := by
  obtain ⟨hfirst, hpast, hfits⟩ := noOverflow_iff.mp h
  obtain ⟨o, ho, hvalue⟩ := offset_of_fits checked hfirst
  have hlength : lengthI64 checked (.ok ⟨length⟩) finish o =
      .ok (.ofInt _ (span length start finish)) := by
    rw [lengthI64_of_past_fits hpast, hvalue]
    exact i64Op_of_fits hfits
  refine ⟨o, hvalue, ?_⟩
  unfold rangeToOffsetAndLength
  rw [ho]
  show (lengthI64 checked (.ok ⟨length⟩) finish o >>= _) = _
  rw [hlength]
  rfl

theorem exact_of_noOverflow (h : NoOverflow length start finish) :
    Exact checked length start finish := by
  obtain ⟨o, hvalue, hrun⟩ := run_of_noOverflow checked h
  obtain ⟨hfirst, -, hfits⟩ := noOverflow_iff.mp h
  unfold Exact
  rw [hrun]
  split
  · next hregion =>
    rw [tryIntoUsize_of_nonneg hfits hregion.2.1]
    exact ⟨_, rfl, hvalue, value_ofInt_of_inRange ((usize_inRange_iff hfits).mpr hregion.2.1)⟩
  · next hregion =>
    rw [tryIntoUsize_of_neg hfits fun hn => hregion ⟨hfirst, hn, hfits⟩]
    exact ⟨_, rfl⟩

/-- A checked build panics at the first operation that overflows. -/
theorem run_overflow (h : ¬ NoOverflow length start finish) :
    rangeToOffsetAndLength true (.ok ⟨length⟩) start finish = .error .panic := by
  unfold rangeToOffsetAndLength
  by_cases hfirst : Fits (first start)
  · obtain ⟨o, ho, hvalue⟩ := offset_of_fits true hfirst
    rw [ho]
    show (lengthI64 true (.ok ⟨length⟩) finish o >>= _) = _
    by_cases hpast : Fits (past length finish)
    · have hfits : ¬ Fits (past length finish - value o) := by
        rw [hvalue]
        exact fun hspan => h (noOverflow_iff.mpr ⟨hfirst, hpast, hspan⟩)
      rw [lengthI64_of_past_fits hpast, i64Op_checked hfits]
      rfl
    · rw [lengthI64_checked hpast]
      rfl
  · rw [offset_checked hfirst]
    rfl

theorem not_exact_of_overflow (h : ¬ NoOverflow length start finish) :
    ¬ Exact true length start finish := by
  unfold Exact
  rw [run_overflow h]
  split
  · rintro ⟨r, hr, -⟩
    cases hr
  · rintro ⟨e, he⟩
    cases he

end Ranges

/-- The computation is exact in both builds if and only if nothing overflows. -/
theorem rangeToOffsetAndLength_exact_iff (length : I64) (start finish : Bound) :
    (∀ checked, Exact checked length start finish) ↔ NoOverflow length start finish := by
  constructor
  · intro h
    by_contra hoverflow
    exact not_exact_of_overflow hoverflow (h true)
  · exact fun h checked => exact_of_noOverflow h

/-- For `i64::MIN..=i64::MAX` a debug build panics, and a release build returns
the length 0 in place of an error. -/
theorem full_range_not_exact :
    ¬ Exact true 0 (.included i64Min) (.included i64Max) ∧
      ¬ Exact false 0 (.included i64Min) (.included i64Max) := by
  refine ⟨not_exact_of_overflow (by decide), ?_⟩
  have hrun : rangeToOffsetAndLength false (.ok ⟨0⟩) (.included i64Min) (.included i64Max) =
      .ok (i64Min, 0) := by decide
  unfold Exact
  rw [if_neg (by decide), hrun]
  rintro ⟨e, he⟩
  cases he

end SharedMemory

end WhaleLand
