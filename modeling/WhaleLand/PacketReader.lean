import WhaleLand.Packet

/-!
# The packet reader

`PacketReader` with its `read_*` functions and `finish`. A read keeps the
reader's state when it fails, as the source does, so that a later read can go
on from there. Additions and subtractions on `usize` are checked: they panic
where they would leave its range.

Each function has one lemma that says everything about its result:
`peekBytes_four`, `readUint_eq`, `readSlice_eq`, `readStr_eq`, `readFd_eq`.
-/

namespace WhaleLand

/-- The reader's two cursors; the packet it borrows is a parameter. -/
structure PacketReader where
  payloadPos : Nat
  fdPos : Nat
deriving DecidableEq, Repr

/-- `Packet::read`. -/
def Packet.read : PacketReader := ⟨0, 0⟩

/-- A computation on the reader that can fail. -/
abbrev ReadM := EStateM Fault PacketReader

namespace PacketReader

variable (t : Target) (p : Packet)

/-! ## Checked arithmetic and slices -/

/-- `a + b` on `usize`. -/
def addUsize (a b : Nat) : ReadM Nat :=
  if a + b ≤ t.usizeMax then pure (a + b) else throw .panic

/-- `a - b` on `usize`. -/
def subUsize (a b : Nat) : ReadM Nat :=
  if b ≤ a then pure (a - b) else throw .panic

/-- `&bytes[start..stop]`. -/
def slice (bytes : List UInt8) (start stop : Nat) : ReadM (List UInt8) :=
  if start ≤ stop ∧ stop ≤ bytes.length then pure ((bytes.take stop).drop start)
  else throw .panic

/-- `self.payload_pos += n`. -/
def advance (n : Nat) : ReadM Unit := do
  let self ← get
  let pos ← addUsize t self.payloadPos n
  set { self with payloadPos := pos }

/-! ## The read functions -/

/-- `peek_bytes` into a buffer of `bufLen` bytes. The error names the end of a
4-byte field whatever the buffer's length. -/
def peekBytes (bufLen : Nat) : ReadM (List UInt8) := do
  let self ← get
  let stop ← addUsize t self.payloadPos bufLen
  if stop > p.payload.length then
    let actual ← addUsize t self.payloadPos 4
    throw (.error (.fieldOutOfBounds actual p.payload.length))
  else
    let stop ← addUsize t self.payloadPos bufLen
    slice p.payload self.payloadPos stop

def readUint : ReadM UInt32 := do
  let buf ← peekBytes t p 4
  advance t 4
  return u32FromNeBytes t buf

def readInt : ReadM Int32 := do
  let buf ← peekBytes t p 4
  advance t 4
  return (u32FromNeBytes t buf).toInt32

def readFixed : ReadM Fixed := do
  let buf ← peekBytes t p 4
  advance t 4
  return ⟨(u32FromNeBytes t buf).toInt32⟩

/-- The common beginning of `read_str` and `read_array`: the declared length,
the bounds check, and the bytes without their padding. -/
def readSlice : ReadM (List UInt8) := do
  let lenBuf ← peekBytes t p 4
  let len := (u32FromNeBytes t lenBuf).toNat
  let paddingLen := Packet.realignCount len
  let lenPadded ← addUsize t len paddingLen
  let self ← get
  let stop ← addUsize t (← addUsize t self.payloadPos 4) lenPadded
  if stop > p.payload.length then
    throw (.error (.fieldOutOfBounds stop p.payload.length))
  advance t 4
  let self ← get
  let bytes ← slice p.payload self.payloadPos (← addUsize t self.payloadPos len)
  advance t lenPadded
  return bytes

def readStr : ReadM String := do
  let stringSlice ← readSlice t p
  let nulPos := stringSlice.idxOf? 0
  let last ← subUsize stringSlice.length 1
  if nulPos ≠ some last then
    throw (.error (.stringMisplacedNul nulPos last))
  let noNulStringSlice ← slice stringSlice 0 last
  match strFromUtf8 noNulStringSlice with
  | some stringy => return stringy
  | none => throw (.error (.stringInvalidUtf8 noNulStringSlice))

def readArray : ReadM (List UInt8) := readSlice t p

def readObject : ReadM (Option ObjectId) := do
  let oid ← readUint t p
  return ObjectId.new oid

def readNewIdKnownInterface : ReadM NewObjectId := do
  match ← readObject t p with
  | some oid => return ⟨oid⟩
  | none => throw (.error .zeroObjectId)

def readNewIdUnknownInterface : ReadM NewObject := do
  let interface ← readStr t p
  let version ← readUint t p
  match ← readObject t p with
  | some oid => return ⟨oid, interface, version⟩
  | none => throw (.error .zeroObjectId)

def readFd : ReadM RawFd := do
  let self ← get
  match p.fds[self.fdPos]? with
  | none => throw (.error (.fdOutOfBounds p.fds.length))
  | some fd =>
    let pos ← addUsize t self.fdPos 1
    set { self with fdPos := pos }
    return fd

def finish : ReadM Unit := do
  let self ← get
  if self.payloadPos ≥ p.payload.length ∧ self.fdPos ≥ p.fds.length then
    return ()
  else
    throw (.error (.incompleteRead self.payloadPos p.payload.length self.fdPos p.fds.length))

/-! ## Running a computation on the reader -/

section Run

variable {t : Target} {p : Packet} {s s' : PacketReader} {α β : Type}

theorem run_bind_of_ok {x : ReadM α} {f : α → ReadM β} {a : α} (h : x.run s = .ok a s') :
    (x >>= f).run s = (f a).run s' := by
  rw [EStateM.run_bind, h]

theorem run_bind_of_error {x : ReadM α} {f : α → ReadM β} {e : Fault}
    (h : x.run s = .error e s') : (x >>= f).run s = .error e s' := by
  rw [EStateM.run_bind, h]

theorem run_bind_eq_ok {x : ReadM α} {f : α → ReadM β} {b : β} :
    (x >>= f).run s = .ok b s' ↔ ∃ a s₁, x.run s = .ok a s₁ ∧ (f a).run s₁ = .ok b s' := by
  rw [EStateM.run_bind]
  cases x.run s <;> simp

theorem run_get_bind {f : PacketReader → ReadM β} : (get >>= f).run s = (f s).run s := rfl

theorem run_throw {e : Fault} : (throw e : ReadM α).run s = .error e s := rfl

theorem run_addUsize (a b : Nat) : (addUsize t a b).run s =
    if t.usizeMax < a + b then .error .panic s else .ok (a + b) s := by
  unfold addUsize
  by_cases h : a + b ≤ t.usizeMax
  · rw [if_pos h, if_neg (Nat.not_lt.mpr h)]
    rfl
  · rw [if_neg h, if_pos (Nat.not_le.mp h)]
    rfl

theorem run_addUsize_of_le {a b : Nat} (h : a + b ≤ t.usizeMax) :
    (addUsize t a b).run s = .ok (a + b) s := by
  rw [run_addUsize, if_neg (Nat.not_lt.mpr h)]

theorem run_addUsize_of_lt {a b : Nat} (h : t.usizeMax < a + b) :
    (addUsize t a b).run s = .error .panic s := by
  rw [run_addUsize, if_pos h]

theorem run_subUsize (a b : Nat) : (subUsize a b).run s =
    if a < b then .error .panic s else .ok (a - b) s := by
  unfold subUsize
  by_cases h : b ≤ a
  · rw [if_pos h, if_neg (Nat.not_lt.mpr h)]
    rfl
  · rw [if_neg h, if_pos (Nat.not_le.mp h)]
    rfl

theorem run_slice_of_le {bytes : List UInt8} {start stop : Nat} (h : start ≤ stop)
    (h' : stop ≤ bytes.length) :
    (slice bytes start stop).run s = .ok ((bytes.take stop).drop start) s := by
  rw [slice, if_pos (And.intro h h')]
  rfl

/-- The reader `n` bytes and `m` descriptors further on. -/
def skip (s : PacketReader) (n m : Nat) : PacketReader := ⟨s.payloadPos + n, s.fdPos + m⟩

theorem skip_skip (s : PacketReader) (n m n' m' : Nat) :
    (s.skip n m).skip n' m' = s.skip (n + n') (m + m') := by
  simp [skip, Nat.add_assoc]

theorem run_advance_of_le {n : Nat} (h : s.payloadPos + n ≤ t.usizeMax) :
    (advance t n).run s = .ok () (s.skip n 0) := by
  rw [advance, run_get_bind, run_bind_of_ok (run_addUsize_of_le h)]
  rfl

end Run

/-! ## What each read does -/

section Reads

variable {t : Target} {p : Packet} {s s' : PacketReader}

/-- The unread payload. -/
def rest (p : Packet) (s : PacketReader) : List UInt8 := p.payload.drop s.payloadPos

/-- The length that the next string or array declares. -/
def declaredLen (t : Target) (p : Packet) (s : PacketReader) : Nat :=
  (u32FromNeBytes t ((rest p s).take 4)).toNat

/-- Where the next string or array ends, its padding included. -/
def declaredStop (t : Target) (p : Packet) (s : PacketReader) : Nat :=
  s.payloadPos + 4 + (declaredLen t p s + Packet.realignCount (declaredLen t p s))

theorem peekBytes_four : (peekBytes t p 4).run s =
    if t.usizeMax < s.payloadPos + 4 then .error .panic s
    else if p.payload.length < s.payloadPos + 4 then
      .error (.error (.fieldOutOfBounds (s.payloadPos + 4) p.payload.length)) s
    else .ok ((rest p s).take 4) s := by
  rw [peekBytes, run_get_bind]
  by_cases hmax : t.usizeMax < s.payloadPos + 4
  · rw [if_pos hmax, run_bind_of_error (run_addUsize_of_lt hmax)]
  · have hadd := Nat.not_lt.mp hmax
    rw [if_neg hmax, run_bind_of_ok (run_addUsize_of_le hadd)]
    by_cases hlen : p.payload.length < s.payloadPos + 4
    · rw [if_pos hlen, if_pos hlen, run_bind_of_ok (run_addUsize_of_le hadd), run_throw]
    · rw [if_neg hlen, if_neg hlen, run_bind_of_ok (run_addUsize_of_le hadd),
        run_slice_of_le (by omega) (by omega), rest, List.drop_take, Nat.add_sub_cancel_left]

/-- A read that begins with a word. -/
theorem run_peekBytes_bind {f : List UInt8 → ReadM β} : (peekBytes t p 4 >>= f).run s =
    if t.usizeMax < s.payloadPos + 4 then .error .panic s
    else if p.payload.length < s.payloadPos + 4 then
      .error (.error (.fieldOutOfBounds (s.payloadPos + 4) p.payload.length)) s
    else (f ((rest p s).take 4)).run s := by
  have hpeek := peekBytes_four (t := t) (p := p) (s := s)
  split at hpeek
  · next hmax => rw [if_pos hmax, run_bind_of_error hpeek]
  split at hpeek
  · next hmax hlen => rw [if_neg hmax, if_pos hlen, run_bind_of_error hpeek]
  · next hmax hlen => rw [if_neg hmax, if_neg hlen, run_bind_of_ok hpeek]

/-- A read of one word: all of `read_uint`, `read_int` and `read_fixed`. -/
theorem readWord_eq {α : Type} (f : List UInt8 → α) :
    (do
      let buf ← peekBytes t p 4
      advance t 4
      return f buf : ReadM α).run s =
    if t.usizeMax < s.payloadPos + 4 then .error .panic s
    else if p.payload.length < s.payloadPos + 4 then
      .error (.error (.fieldOutOfBounds (s.payloadPos + 4) p.payload.length)) s
    else .ok (f ((rest p s).take 4)) (s.skip 4 0) := by
  rw [run_peekBytes_bind]
  split
  · rfl
  · next hmax =>
    rw [run_bind_of_ok (run_advance_of_le (Nat.not_lt.mp hmax))]
    rfl

theorem readSlice_eq : (readSlice t p).run s =
    if t.usizeMax < s.payloadPos + 4 then .error .panic s
    else if p.payload.length < s.payloadPos + 4 then
      .error (.error (.fieldOutOfBounds (s.payloadPos + 4) p.payload.length)) s
    else if t.usizeMax < declaredStop t p s then .error .panic s
    else if p.payload.length < declaredStop t p s then
      .error (.error (.fieldOutOfBounds (declaredStop t p s) p.payload.length)) s
    else .ok (((rest p s).drop 4).take (declaredLen t p s))
      (s.skip (4 + (declaredLen t p s + Packet.realignCount (declaredLen t p s))) 0) := by
  rw [readSlice, run_peekBytes_bind]
  split
  · rfl
  · next hmax =>
    split
    · rfl
    have hdecl : (u32FromNeBytes t ((rest p s).take 4)).toNat = declaredLen t p s := rfl
    simp only [hdecl]
    have hstop : declaredStop t p s =
        s.payloadPos + 4 + (declaredLen t p s + Packet.realignCount (declaredLen t p s)) := rfl
    generalize declaredStop t p s = stop at hstop ⊢
    generalize declaredLen t p s = len at hstop ⊢
    by_cases hover : t.usizeMax < stop
    · rw [if_pos hover]
      by_cases hpad : t.usizeMax < len + Packet.realignCount len
      · exact run_bind_of_error (run_addUsize_of_lt hpad)
      · rw [run_bind_of_ok (run_addUsize_of_le (Nat.not_lt.mp hpad)), run_get_bind,
          run_bind_of_ok (run_addUsize_of_le (Nat.not_lt.mp hmax)),
          run_bind_of_error (run_addUsize_of_lt (by omega))]
    rw [if_neg hover, run_bind_of_ok (run_addUsize_of_le (by omega)), run_get_bind,
      run_bind_of_ok (run_addUsize_of_le (Nat.not_lt.mp hmax)),
      run_bind_of_ok (run_addUsize_of_le (by omega))]
    by_cases hout : p.payload.length < stop
    · rw [if_pos hout, if_pos (by omega), run_bind_of_error run_throw, hstop]
    rw [if_neg hout, if_neg (by omega)]
    rw [run_bind_of_ok (run_advance_of_le (Nat.not_lt.mp hmax)), run_get_bind,
      run_bind_of_ok (run_addUsize_of_le (by simp only [skip]; omega)),
      run_bind_of_ok (run_slice_of_le (by simp only [skip]; omega) (by simp only [skip]; omega)),
      run_bind_of_ok (run_advance_of_le (by simp only [skip]; omega))]
    rw [EStateM.run_pure, skip_skip, skip, Nat.add_zero, List.drop_take, Nat.add_sub_cancel_left,
      rest, List.drop_drop]

/-- The bytes of a slice that is all there are as many as it declares. -/
theorem length_declared (h : declaredStop t p s ≤ p.payload.length) :
    (((rest p s).drop 4).take (declaredLen t p s)).length = declaredLen t p s := by
  unfold declaredStop at h
  simp only [rest, List.length_take, List.length_drop]
  omega

/-- A slice that has been read was all there. -/
theorem declared_of_readSlice {slice : List UInt8} {s' : PacketReader}
    (h : (readSlice t p).run s = .ok slice s') :
    s.payloadPos + 4 ≤ p.payload.length ∧ declaredStop t p s ≤ p.payload.length ∧
      slice = ((rest p s).drop 4).take (declaredLen t p s) ∧
      s' = s.skip (4 + (declaredLen t p s + Packet.realignCount (declaredLen t p s))) 0 := by
  rw [readSlice_eq] at h
  split at h
  · cases h
  split at h
  · cases h
  split at h
  · cases h
  split at h
  · cases h
  · next hlen _ hstop =>
    cases h
    exact ⟨Nat.not_lt.mp hlen, Nat.not_lt.mp hstop, rfl, rfl⟩

/-- What `read_str` makes of the bytes between the length and the padding. -/
def strOfSlice (stringSlice : List UInt8) : Except Fault String :=
  if stringSlice = [] then .error .panic
  else if stringSlice.idxOf? 0 ≠ some (stringSlice.length - 1) then
    .error (.error (.stringMisplacedNul (stringSlice.idxOf? 0) (stringSlice.length - 1)))
  else
    match strFromUtf8 (stringSlice.take (stringSlice.length - 1)) with
    | some stringy => .ok stringy
    | none => .error (.error (.stringInvalidUtf8 (stringSlice.take (stringSlice.length - 1))))

theorem readStr_eq : (readStr t p).run s =
    match (readSlice t p).run s with
    | .error e s' => .error e s'
    | .ok stringSlice s' =>
      match strOfSlice stringSlice with
      | .ok stringy => .ok stringy s'
      | .error e => .error e s' := by
  rw [readStr]
  cases hslice : (readSlice t p).run s with
  | error e s' => exact run_bind_of_error hslice
  | ok stringSlice s' =>
    rw [run_bind_of_ok hslice]
    by_cases hnil : stringSlice = []
    · subst hnil
      rfl
    have hpos : 0 < stringSlice.length := List.length_pos_iff.mpr hnil
    have hlast : (subUsize stringSlice.length 1).run s' = .ok (stringSlice.length - 1) s' := by
      rw [run_subUsize, if_neg (by omega)]
    rw [run_bind_of_ok hlast]
    simp only [strOfSlice, if_neg hnil]
    by_cases hnul : stringSlice.idxOf? 0 = some (stringSlice.length - 1)
    · rw [if_neg (not_not.mpr hnul), if_neg (not_not.mpr hnul)]
      rw [run_bind_of_ok (run_slice_of_le (Nat.zero_le _) (Nat.sub_le _ _)), List.drop_zero]
      cases strFromUtf8 (stringSlice.take (stringSlice.length - 1)) <;> rfl
    · rw [if_pos hnul, if_pos hnul]
      exact run_bind_of_error run_throw

/-- The first NUL is the last byte exactly when the other bytes are not NUL. -/
theorem idxOf?_concat {bytes : List UInt8} {b : UInt8} :
    (bytes ++ [b]).idxOf? 0 = some bytes.length ↔ b = 0 ∧ 0 ∉ bytes := by
  rw [List.idxOf?_eq_some_iff]
  constructor
  · rintro ⟨_, hlast, hfirst⟩
    refine ⟨by simpa using hlast, fun hmem => ?_⟩
    obtain ⟨i, hi, hget⟩ := List.getElem_of_mem hmem
    exact hfirst i hi (by rwa [List.getElem_append_left hi])
  · rintro ⟨rfl, hmem⟩
    refine ⟨by simp, by simp, fun i hi hget => hmem ?_⟩
    rw [List.getElem_append_left hi] at hget
    exact hget ▸ List.getElem_mem hi

/-- The accepted slices are the strings without NUL, followed by one. -/
theorem strOfSlice_eq_ok {slice : List UInt8} {v : String} :
    strOfSlice slice = .ok v ↔ slice = strBytes v ++ [0] ∧ 0 ∉ strBytes v := by
  rcases List.eq_nil_or_concat' slice with rfl | ⟨bytes, b, rfl⟩
  · simp [strOfSlice]
  have hne : bytes ++ [b] ≠ [] := by simp
  have hlast : (bytes ++ [b]).length - 1 = bytes.length := by simp
  simp only [strOfSlice, if_neg hne, hlast, List.take_left, ne_eq, idxOf?_concat]
  constructor
  · intro h
    split at h
    · cases h
    · next hnul =>
      obtain ⟨rfl, hmem⟩ := not_not.mp hnul
      split at h
      · next hstr =>
        cases h
        rw [strFromUtf8_eq_some.mp hstr]
        exact ⟨rfl, hmem⟩
      · cases h
  · rintro ⟨heq, hmem⟩
    obtain ⟨rfl, hb⟩ := List.append_inj' heq rfl
    cases hb
    rw [if_neg (not_not.mpr ⟨rfl, hmem⟩), strFromUtf8_eq_some.mpr rfl]

example : strOfSlice [0x68, 0x69, 0] = .ok "hi" := by decide +kernel

theorem strOfSlice_eq_panic {bytes : List UInt8} :
    strOfSlice bytes = .error .panic ↔ bytes = [] := by
  unfold strOfSlice
  split
  · simp [*]
  · split
    · simp [*]
    · split <;> simp [*]

theorem readFd_eq : (readFd t p).run s =
    match p.fds[s.fdPos]? with
    | none => .error (.error (.fdOutOfBounds p.fds.length)) s
    | some fd => if t.usizeMax < s.fdPos + 1 then .error .panic s else .ok fd (s.skip 0 1) := by
  rw [readFd, run_get_bind]
  cases p.fds[s.fdPos]? with
  | none => rfl
  | some fd =>
    by_cases hmax : t.usizeMax < s.fdPos + 1
    · simp only [if_pos hmax]
      exact run_bind_of_error (run_addUsize_of_lt hmax)
    · simp only [if_neg hmax]
      rw [run_bind_of_ok (run_addUsize_of_le (Nat.not_lt.mp hmax))]
      rfl

theorem finish_eq : (finish p).run s =
    if s.payloadPos ≥ p.payload.length ∧ s.fdPos ≥ p.fds.length then .ok () s
    else
      .error (.error (.incompleteRead s.payloadPos p.payload.length s.fdPos p.fds.length)) s := by
  rw [finish, run_get_bind]
  split <;> rfl

end Reads

end PacketReader

end WhaleLand
