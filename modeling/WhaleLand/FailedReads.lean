import WhaleLand.ReaderSafety

/-!
# Reads that fail

Whether a read that returns `Err` leaves the reader where it was. The bounds
checks peek before they advance. The checks of a string's contents and of a new
object's id come after the advance, and a new object of unknown interface is
three reads in a row. `keepsOnError_iff` says which failures move the reader:
those of a field that is all there and has the wrong contents, and of a new
object that is there in part.

This is the build with overflow checks. In the other one the length 0 of a
string wraps around instead of panicking, and the string is refused like one
with the wrong contents.
-/

namespace WhaleLand

open Wlproto PacketReader

/-! ## The fields at the cursor -/

section Fields

variable (t : Target) (p : Packet) (s : PacketReader)

/-- The word at a position of the payload. -/
def wordAt (pos : Nat) : UInt32 := u32FromNeBytes t ((p.payload.drop pos).take 4)

/-- The next string or array lies inside the payload. -/
def SliceFits : Prop :=
  s.payloadPos + 4 ≤ p.payload.length ∧ declaredStop t p s ≤ p.payload.length

/-- Its contents. -/
def declaredSlice : List UInt8 := ((rest p s).drop 4).take (declaredLen t p s)

end Fields

/-- The contents of a string: UTF-8 without NUL, then a NUL. -/
def IsStr (slice : List UInt8) : Prop := ∃ v, slice = strBytes v ++ [0] ∧ 0 ∉ strBytes v

/-- If the computation returns `Err`, the reader is where it was. -/
def KeepsOnError {α : Type} (x : ReadM α) (s : PacketReader) : Prop :=
  ∀ e s', x.run s = .error (.error e) s' → s' = s

/-- What is wrong with the next field, if anything, shows before the reader
moves. A string of declared length 0 panics, as overflow is checked. -/
def FailsBeforeMoving (t : Target) (p : Packet) (s : PacketReader) : ReadFunc → Prop
  | .readStr => SliceFits t p s → declaredLen t p s = 0 ∨ IsStr (declaredSlice t p s)
  | .readNewIdKnownInterface =>
    s.payloadPos + 4 ≤ p.payload.length → wordAt t p s.payloadPos ≠ 0
  | .readNewIdUnknownInterface =>
    SliceFits t p s → declaredLen t p s = 0 ∨ IsStr (declaredSlice t p s) ∧
      declaredStop t p s + 8 ≤ p.payload.length ∧ wordAt t p (declaredStop t p s + 4) ≠ 0
  | .readUint | .readInt | .readFixed | .readObject | .readArray | .readFd => True

/-! ## Single reads -/

section Reads

variable {t : Target} {p : Packet} {s s' : PacketReader} {α β : Type} {x : ReadM α}

theorem keepsOnError_of_ok {a : α} (h : x.run s = .ok a s') : KeepsOnError x s := by
  intro e s'' he
  rw [h] at he
  cases he

theorem keepsOnError_of_panic (h : x.run s = .error .panic s') : KeepsOnError x s := by
  intro e s'' he
  rw [h] at he
  cases he

theorem keepsOnError_of_error {e : Fault} (h : x.run s = .error e s) : KeepsOnError x s := by
  intro e' s' he
  rw [h] at he
  cases he
  rfl

theorem not_keepsOnError {e : Error} (h : x.run s = .error (.error e) s') (hne : s' ≠ s) :
    ¬ KeepsOnError x s :=
  fun hkeeps => hne (hkeeps e s' h)

theorem keepsOnError_map (f : α → β) : KeepsOnError (f <$> x) s ↔ KeepsOnError x s := by
  unfold KeepsOnError
  rw [← bind_pure_comp]
  cases hrun : x.run s with
  | ok a s' =>
    rw [run_bind_of_ok hrun]
    exact iff_of_true (fun e s'' he => by cases he) fun e s'' he => by cases he
  | error e s' =>
    rw [run_bind_of_error hrun]
    constructor
    · intro h e' s'' he
      cases he
      exact h e' s' rfl
    · intro h e' s'' he
      cases he
      exact h e' s' rfl

theorem skip_ne (s : PacketReader) {n : Nat} (hn : n ≠ 0) : s.skip n 0 ≠ s := by
  intro h
  have hpos : s.payloadPos + n = s.payloadPos := congrArg PacketReader.payloadPos h
  omega

theorem keepsOnError_readWord (f : List UInt8 → α) :
    KeepsOnError (do
      let buf ← peekBytes t p 4
      advance t 4
      return f buf : ReadM α) s := by
  have hword := readWord_eq (t := t) (p := p) (s := s) f
  split at hword
  · exact keepsOnError_of_error hword
  split at hword
  · exact keepsOnError_of_error hword
  · exact keepsOnError_of_ok hword

theorem keepsOnError_readObject : KeepsOnError (readObject t p) s := by
  have hmap : readObject t p = ObjectId.new <$> readUint t p := by
    rw [readObject, bind_pure_comp]
  rw [hmap, keepsOnError_map]
  exact keepsOnError_readWord _

/-- Past the end of the payload, a word is refused, or the end of the word
overflows. -/
theorem readObject_of_not_fits (h : p.payload.length < s.payloadPos + 4) :
    ∃ e, (readObject t p).run s = .error e s ∧ (readUint t p).run s = .error e s ∧
      (s.payloadPos + 4 ≤ t.usizeMax → ∃ e', e = .error e') := by
  have hword := readWord_eq (t := t) (p := p) (s := s) (u32FromNeBytes t)
  by_cases hmax : t.usizeMax < s.payloadPos + 4
  · rw [if_pos hmax] at hword
    exact ⟨_, run_bind_of_error hword, hword, fun hle => absurd hmax (Nat.not_lt.mpr hle)⟩
  · rw [if_neg hmax, if_pos h] at hword
    exact ⟨_, run_bind_of_error hword, hword, fun _ => ⟨_, rfl⟩⟩

theorem keepsOnError_readFd : KeepsOnError (readFd t p) s := by
  have hread := readFd_eq (t := t) (p := p) (s := s)
  cases hget : p.fds[s.fdPos]? with
  | none =>
    rw [hget] at hread
    exact keepsOnError_of_error hread
  | some fd =>
    simp only [hget] at hread
    split at hread
    · exact keepsOnError_of_panic hread
    · exact keepsOnError_of_ok hread

theorem readSlice_of_not_fits (h : ¬ SliceFits t p s) :
    ∃ e, (readSlice t p).run s = .error e s := by
  unfold SliceFits at h
  rw [readSlice_eq]
  split
  · exact ⟨_, rfl⟩
  split
  · exact ⟨_, rfl⟩
  split
  · exact ⟨_, rfl⟩
  · next hlen _ => exact ⟨_, if_pos (by omega)⟩

variable (hp : p.Allocated t)
include hp

theorem readUint_of_fits (h : s.payloadPos + 4 ≤ p.payload.length) :
    (readUint t p).run s = .ok (wordAt t p s.payloadPos) (s.skip 4 0) := by
  have hmax := t.isizeMax_add_lt
  have hpayload := hp.payload
  rw [readUint, readWord_eq, if_neg (by omega), if_neg (by omega)]
  rfl

theorem readObject_of_fits (h : s.payloadPos + 4 ≤ p.payload.length) :
    (readObject t p).run s = .ok (ObjectId.new (wordAt t p s.payloadPos)) (s.skip 4 0) := by
  rw [readObject, run_bind_of_ok (readUint_of_fits hp h)]
  rfl

theorem readSlice_of_fits (h : SliceFits t p s) :
    ∃ n, n ≠ 0 ∧ s.payloadPos + n = declaredStop t p s ∧
      (readSlice t p).run s = .ok (declaredSlice t p s) (s.skip n 0) := by
  obtain ⟨hlen, hstop⟩ := h
  have hmax := t.isizeMax_add_lt
  have hpayload := hp.payload
  refine ⟨4 + (declaredLen t p s + Packet.realignCount (declaredLen t p s)), by omega, ?_, ?_⟩
  · rw [declaredStop, Nat.add_assoc]
  · rw [readSlice_eq, if_neg (by omega), if_neg (by omega), if_neg (by omega), if_neg (by omega)]
    rfl

theorem keepsOnError_readSlice : KeepsOnError (readSlice t p) s := by
  by_cases hfits : SliceFits t p s
  · obtain ⟨_, _, _, hrun⟩ := readSlice_of_fits hp hfits
    exact keepsOnError_of_ok hrun
  · obtain ⟨e, hrun⟩ := readSlice_of_not_fits hfits
    exact keepsOnError_of_error hrun

omit hp in
theorem declaredSlice_eq_nil_iff (h : SliceFits t p s) :
    declaredSlice t p s = [] ↔ declaredLen t p s = 0 := by
  have hlength : (declaredSlice t p s).length = declaredLen t p s := length_declared h.2
  rw [← hlength, List.length_eq_zero_iff]

/-- A string that is all there is read, refused or makes the reader panic, and
the reader has moved past it in any case. -/
theorem readStr_of_fits (h : SliceFits t p s) :
    ∃ n, n ≠ 0 ∧ s.payloadPos + n = declaredStop t p s ∧
      ((declaredLen t p s = 0 ∧ (readStr t p).run s = .error .panic (s.skip n 0)) ∨
        (declaredLen t p s ≠ 0 ∧ IsStr (declaredSlice t p s) ∧
          ∃ v, (readStr t p).run s = .ok v (s.skip n 0)) ∨
        (declaredLen t p s ≠ 0 ∧ ¬ IsStr (declaredSlice t p s) ∧
          ∃ e, (readStr t p).run s = .error (.error e) (s.skip n 0))) := by
  obtain ⟨n, hn, hstop, hslice⟩ := readSlice_of_fits hp h
  refine ⟨n, hn, hstop, ?_⟩
  rw [readStr_eq, hslice]
  cases hstr : strOfSlice (declaredSlice t p s) with
  | ok v =>
    refine .inr (.inl ⟨fun hnil => ?_, ⟨v, strOfSlice_eq_ok.mp hstr⟩, v, by simp only [hstr]⟩)
    rw [strOfSlice_eq_panic.mpr ((declaredSlice_eq_nil_iff h).mpr hnil)] at hstr
    cases hstr
  | error e =>
    cases e with
    | panic =>
      have hnil := strOfSlice_eq_panic.mp hstr
      exact .inl ⟨(declaredSlice_eq_nil_iff h).mp hnil, by simp only [hstr]⟩
    | error e =>
      refine .inr (.inr ⟨fun hnil => ?_, ?_, e, by simp only [hstr]⟩)
      · rw [strOfSlice_eq_panic.mpr ((declaredSlice_eq_nil_iff h).mpr hnil)] at hstr
        cases hstr
      · rintro ⟨v, hv⟩
        rw [strOfSlice_eq_ok.mpr hv] at hstr
        cases hstr

theorem keepsOnError_readStr_iff :
    KeepsOnError (readStr t p) s ↔ FailsBeforeMoving t p s .readStr := by
  unfold FailsBeforeMoving
  by_cases hfits : SliceFits t p s
  · obtain ⟨n, hn, _, ⟨hzero, hrun⟩ | ⟨hzero, hstr, v, hrun⟩ | ⟨hzero, hstr, e, hrun⟩⟩ :=
      readStr_of_fits hp hfits
    · exact iff_of_true (keepsOnError_of_panic hrun) fun _ => .inl hzero
    · exact iff_of_true (keepsOnError_of_ok hrun) fun _ => .inr hstr
    · refine iff_of_false (not_keepsOnError hrun (skip_ne s hn)) fun h => ?_
      exact (h hfits).elim hzero hstr
  · obtain ⟨e, hrun⟩ := readSlice_of_not_fits hfits
    refine iff_of_true (keepsOnError_of_error (e := e) ?_) fun h => absurd h hfits
    rw [readStr_eq, hrun]

theorem keepsOnError_readNewIdKnownInterface_iff :
    KeepsOnError (readNewIdKnownInterface t p) s ↔
      FailsBeforeMoving t p s .readNewIdKnownInterface := by
  unfold FailsBeforeMoving readNewIdKnownInterface
  by_cases hfits : s.payloadPos + 4 ≤ p.payload.length
  · have hobject := readObject_of_fits hp hfits
    cases hnew : ObjectId.new (wordAt t p s.payloadPos) with
    | none =>
      have hzero := ObjectId.new_eq_none.mp hnew
      rw [hnew] at hobject
      refine iff_of_false (not_keepsOnError (run_bind_of_ok hobject) (skip_ne s (by decide))) ?_
      intro h
      exact h hfits hzero
    | some oid =>
      have hval := ObjectId.new_eq_some.mp hnew
      rw [hnew] at hobject
      refine iff_of_true (keepsOnError_of_ok (run_bind_of_ok hobject)) fun _ => ?_
      rw [hval]
      exact oid.nonzero
  · obtain ⟨e, hobject, _⟩ := readObject_of_not_fits (t := t) (Nat.not_le.mp hfits)
    exact iff_of_true (keepsOnError_of_error (run_bind_of_error hobject)) fun h => absurd h hfits

/-- After its string, a new object is read whole or it fails with the reader
moved. -/
theorem readNewIdUnknownInterface_of_str {v : String} {n : Nat} (hn : n ≠ 0)
    (hend : (s.skip n 0).payloadPos ≤ p.payload.length)
    (hstr : (readStr t p).run s = .ok v (s.skip n 0)) :
    KeepsOnError (readNewIdUnknownInterface t p) s ↔
      s.payloadPos + n + 8 ≤ p.payload.length ∧ wordAt t p (s.payloadPos + n + 4) ≠ 0 := by
  have hbound := t.isizeMax_add_lt
  have hpayload := hp.payload
  simp only [skip] at hend
  by_cases hversion : s.payloadPos + n + 4 ≤ p.payload.length
  · have huint : (readUint t p).run (s.skip n 0) =
        .ok (wordAt t p (s.payloadPos + n)) (s.skip (n + 4) 0) := readUint_of_fits hp hversion
    by_cases hoid : s.payloadPos + n + 8 ≤ p.payload.length
    · have hobject : (readObject t p).run (s.skip (n + 4) 0) =
          .ok (ObjectId.new (wordAt t p (s.payloadPos + n + 4))) (s.skip (n + 8) 0) :=
        readObject_of_fits hp hoid
      rw [and_iff_right hoid]
      cases hnew : ObjectId.new (wordAt t p (s.payloadPos + n + 4)) with
      | none =>
        have hrun : (readNewIdUnknownInterface t p).run s =
            .error (.error .zeroObjectId) (s.skip (n + 8) 0) := by
          rw [readNewIdUnknownInterface, run_bind_of_ok hstr, run_bind_of_ok huint,
            run_bind_of_ok hobject, hnew]
          rfl
        refine iff_of_false (not_keepsOnError hrun (skip_ne s (by omega))) fun h => ?_
        exact h (ObjectId.new_eq_none.mp hnew)
      | some oid =>
        have hrun : (readNewIdUnknownInterface t p).run s =
            .ok ⟨oid, v, wordAt t p (s.payloadPos + n)⟩ (s.skip (n + 8) 0) := by
          rw [readNewIdUnknownInterface, run_bind_of_ok hstr, run_bind_of_ok huint,
            run_bind_of_ok hobject, hnew]
          rfl
        refine iff_of_true (keepsOnError_of_ok hrun) ?_
        rw [ObjectId.new_eq_some.mp hnew]
        exact oid.nonzero
    · obtain ⟨e, hrun, _, he⟩ :=
        readObject_of_not_fits (t := t) (s := s.skip (n + 4) 0) (Nat.not_le.mp hoid)
      obtain ⟨e, rfl⟩ := he (by simp only [skip]; omega)
      have herror : (readNewIdUnknownInterface t p).run s =
          .error (.error e) (s.skip (n + 4) 0) := by
        rw [readNewIdUnknownInterface, run_bind_of_ok hstr, run_bind_of_ok huint,
          run_bind_of_error hrun]
      exact iff_of_false (not_keepsOnError herror (skip_ne s (by omega))) fun h => hoid h.1
  · obtain ⟨e, _, hrun, he⟩ :=
      readObject_of_not_fits (t := t) (s := s.skip n 0) (Nat.not_le.mp hversion)
    obtain ⟨e, rfl⟩ := he (by simp only [skip]; omega)
    have herror : (readNewIdUnknownInterface t p).run s = .error (.error e) (s.skip n 0) := by
      rw [readNewIdUnknownInterface, run_bind_of_ok hstr, run_bind_of_error hrun]
    refine iff_of_false (not_keepsOnError herror (skip_ne s hn)) fun h => hversion ?_
    omega

theorem keepsOnError_readNewIdUnknownInterface_iff :
    KeepsOnError (readNewIdUnknownInterface t p) s ↔
      FailsBeforeMoving t p s .readNewIdUnknownInterface := by
  unfold FailsBeforeMoving
  by_cases hfits : SliceFits t p s
  · obtain ⟨n, hn, hstop, ⟨hzero, hrun⟩ | ⟨hzero, hstr, v, hrun⟩ | ⟨hzero, hstr, e, hrun⟩⟩ :=
      readStr_of_fits hp hfits
    · have hpanic : (readNewIdUnknownInterface t p).run s = .error .panic (s.skip n 0) :=
        run_bind_of_error hrun
      exact iff_of_true (keepsOnError_of_panic hpanic) fun _ => .inl hzero
    · have hend : (s.skip n 0).payloadPos ≤ p.payload.length := hstop.trans_le hfits.2
      rw [readNewIdUnknownInterface_of_str hp hn hend hrun, hstop]
      constructor
      · intro h _
        exact .inr ⟨hstr, h⟩
      · intro h
        exact ((h hfits).resolve_left hzero).2
    · have herror : (readNewIdUnknownInterface t p).run s = .error (.error e) (s.skip n 0) :=
        run_bind_of_error hrun
      refine iff_of_false (not_keepsOnError herror (skip_ne s hn)) fun h => ?_
      exact (h hfits).elim hzero fun h => hstr h.1
  · obtain ⟨e, hrun⟩ := readSlice_of_not_fits hfits
    have herror : (readStr t p).run s = .error e s := by
      rw [readStr_eq, hrun]
    have hkeeps : KeepsOnError (readNewIdUnknownInterface t p) s :=
      keepsOnError_of_error (run_bind_of_error herror)
    exact iff_of_true hkeeps fun h => absurd h hfits

/-- With overflow checks, a read that fails leaves the reader where it was
exactly when its field is not complete, or its contents are good. -/
theorem keepsOnError_iff (f : ReadFunc) :
    KeepsOnError (f.run t p) s ↔ FailsBeforeMoving t p s f := by
  cases f with
  | readStr => exact (keepsOnError_map _).trans (keepsOnError_readStr_iff hp)
  | readNewIdKnownInterface =>
    exact (keepsOnError_map _).trans (keepsOnError_readNewIdKnownInterface_iff hp)
  | readNewIdUnknownInterface =>
    exact (keepsOnError_map _).trans (keepsOnError_readNewIdUnknownInterface_iff hp)
  | readArray => exact iff_of_true ((keepsOnError_map _).mpr (keepsOnError_readSlice hp)) trivial
  | readFd => exact iff_of_true ((keepsOnError_map _).mpr keepsOnError_readFd) trivial
  | readUint | readInt | readFixed =>
    exact iff_of_true ((keepsOnError_map _).mpr (keepsOnError_readWord _)) trivial
  | readObject => exact iff_of_true ((keepsOnError_map _).mpr keepsOnError_readObject) trivial

end Reads

/-- The reader has got here by calls that succeeded or failed. -/
def Reachable (t : Target) (p : Packet) (s : PacketReader) : Prop :=
  ∃ ops : List ReaderOp, s = ops.foldl (fun s op => op.next t p s) Packet.read

/-- A number, the string `ab`, and a string without its NUL. -/
def twoStrings : Packet :=
  ⟨.ofNat 2, 0, [5, 0, 0, 0, 3, 0, 0, 0, 97, 98, 0, 0, 3, 0, 0, 0, 97, 98, 99, 0], []⟩

theorem keepsOnError_iff_strings :
    KeepsOnError (ReadFunc.readStr.run ⟨.little, .w64⟩ twoStrings) ⟨4, 0⟩ ∧
      ¬ KeepsOnError (ReadFunc.readStr.run ⟨.little, .w64⟩ twoStrings) ⟨12, 0⟩ := by
  constructor
  · exact (keepsOnError_iff ⟨by decide, by decide⟩ .readStr).mpr fun _ =>
      .inr ⟨"ab", by decide, by decide⟩
  · intro hkeeps
    have hfails := (keepsOnError_iff ⟨by decide, by decide⟩ .readStr).mp hkeeps
    obtain hzero | ⟨v, hv, _⟩ := hfails ⟨by decide, by decide⟩
    · exact absurd hzero (by decide)
    · -- a string ends in a NUL
      have hlast := congrArg List.getLast? hv
      rw [List.getLast?_concat] at hlast
      exact absurd hlast (by decide)

/-- A new object with the id 0 is refused after its word has been consumed. -/
theorem refused_id_consumed :
    ¬ ∀ (t : Target) (p : Packet) (s : PacketReader) (f : ReadFunc), p.Allocated t →
      Reachable t p s → KeepsOnError (f.run t p) s := by
  intro h
  have hkeeps := h ⟨.little, .w64⟩ ⟨.ofNat 2, 0, [0, 0, 0, 0], []⟩ Packet.read
    .readNewIdKnownInterface ⟨by decide, by decide⟩ ⟨[], rfl⟩
  cases hkeeps .zeroObjectId ⟨4, 0⟩ rfl

end WhaleLand
