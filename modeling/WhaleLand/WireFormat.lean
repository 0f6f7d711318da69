import WhaleLand.Generated

/-!
# The wire format of arguments

`Encodes t v chunk` says which byte strings stand for the value `v`: the
contents of strings and arrays are followed by padding of any bytes, everything
else is fixed. The read functions accept exactly these chunks
(`readFunc_ok`, `readFunc_of_encodes`).
-/

namespace WhaleLand

open Wlproto PacketReader

/-! ## The format -/

/-- Length-prefixed bytes and their padding. -/
def EncodesSlice (t : Target) (bytes chunk : List UInt8) : Prop :=
  bytes.length ≤ u32Max ∧ ∃ padding : List UInt8,
    padding.length = Packet.realignCount bytes.length ∧
    chunk = u32ToNeBytes t (UInt32.ofNat bytes.length) ++ bytes ++ padding

/-- A string goes with its NUL. -/
def EncodesStr (t : Target) (s : String) (chunk : List UInt8) : Prop :=
  0 ∉ strBytes s ∧ EncodesSlice t (strBytes s ++ [0]) chunk

/-- The word of an optional object id. -/
def objectWord : Option ObjectId → UInt32
  | some oid => oid.val
  | none => 0

def Encodes (t : Target) : Value → List UInt8 → Prop
  | .uint v, chunk => chunk = u32ToNeBytes t v
  | .int v, chunk => chunk = u32ToNeBytes t v.toUInt32
  | .fixed v, chunk => chunk = u32ToNeBytes t v.innerValue.toUInt32
  | .string s, chunk => EncodesStr t s chunk
  | .object v, chunk => chunk = u32ToNeBytes t (objectWord v)
  | .newId n, chunk => chunk = u32ToNeBytes t n.objectId.val
  | .newObject n, chunk => ∃ str, EncodesStr t n.interface str ∧
      chunk = str ++ (u32ToNeBytes t n.interfaceVersion ++ u32ToNeBytes t n.objectId.val)
  | .array bytes, chunk => EncodesSlice t bytes chunk
  | .fd _, chunk => chunk = []

/-- A chunk for each value, side by side. -/
def EncodesAll (t : Target) : List Value → List UInt8 → Prop
  | [], chunk => chunk = []
  | v :: vs, chunk => ∃ first others, Encodes t v first ∧ EncodesAll t vs others ∧
      chunk = first ++ others

/-- The descriptors of a list of values, in order. -/
def fdsOfValues (vs : List Value) : List RawFd := vs.flatMap Value.fds

@[simp] theorem fdsOfValues_cons (v : Value) (vs : List Value) :
    fdsOfValues (v :: vs) = v.fds ++ fdsOfValues vs :=
  List.flatMap_cons

/-! ## What the reads accept -/

section Reads

variable {t : Target} {p : Packet} {s s' : PacketReader}

theorem run_map_eq_ok {α β : Type} {f : α → β} {x : ReadM α} {b : β} :
    (f <$> x).run s = .ok b s' ↔ ∃ a, x.run s = .ok a s' ∧ f a = b := by
  rw [← bind_pure_comp, run_bind_eq_ok]
  constructor
  · rintro ⟨a, s₁, hx, hb⟩
    cases hb
    exact ⟨a, hx, rfl⟩
  · rintro ⟨a, hx, rfl⟩
    exact ⟨a, s', hx, rfl⟩

theorem u32FromNeBytes_of_isPrefix {v : UInt32} {bytes : List UInt8}
    (h : u32ToNeBytes t v <+: bytes) : u32FromNeBytes t (bytes.take 4) = v := by
  obtain ⟨tail, rfl⟩ := h
  rw [List.take_left' (length_u32ToNeBytes t v), u32FromNeBytes_u32ToNeBytes]

/-- A successful word read consumes the bytes of the word. -/
theorem readWord_ok {α : Type} {f : List UInt8 → α} {v : α}
    (h : (do
      let buf ← peekBytes t p 4
      advance t 4
      return f buf : ReadM α).run s = .ok v s') :
    ∃ chunk, chunk.length = 4 ∧ v = f chunk ∧ chunk <+: rest p s ∧ s' = s.skip 4 0 := by
  rw [readWord_eq] at h
  split at h
  · cases h
  split at h
  · cases h
  · next hlen =>
    cases h
    refine ⟨(rest p s).take 4, ?_, rfl, List.take_prefix _ _, rfl⟩
    simp only [rest, List.length_take, List.length_drop]
    omega

/-- The four bytes of a word can be read. -/
theorem readWord_of_isPrefix {α : Type} {f : List UInt8 → α} {chunk : List UInt8}
    (hchunk : chunk.length = 4) (hpre : chunk <+: rest p s)
    (hmax : s.payloadPos + 4 ≤ t.usizeMax) :
    (do
      let buf ← peekBytes t p 4
      advance t 4
      return f buf : ReadM α).run s = .ok (f chunk) (s.skip 4 0) := by
  have hlen := hpre.length_le
  simp only [rest, List.length_drop] at hlen
  rw [readWord_eq, if_neg (by omega), if_neg (by omega)]
  obtain ⟨tail, htail⟩ := hpre
  rw [← htail, List.take_left' hchunk]

theorem readSlice_ok {bytes : List UInt8} (h : (readSlice t p).run s = .ok bytes s') :
    ∃ chunk, EncodesSlice t bytes chunk ∧ chunk <+: rest p s ∧ s' = s.skip chunk.length 0 := by
  obtain ⟨hlen, hstop, hbytes, hs'⟩ := declared_of_readSlice h
  have hrest : (rest p s).length = p.payload.length - s.payloadPos := by
    simp [rest]
  have hdecl : declaredLen t p s = bytes.length := by
    rw [hbytes, length_declared hstop]
  unfold declaredStop at hstop
  have hword : u32ToNeBytes t (UInt32.ofNat bytes.length) = (rest p s).take 4 := by
    rw [← hdecl, declaredLen, UInt32.ofNat_toNat, u32ToNeBytes_u32FromNeBytes]
    rw [List.length_take]
    omega
  rw [hdecl] at hbytes hs' hstop
  refine ⟨(rest p s).take (4 + (bytes.length + Packet.realignCount bytes.length)),
    ⟨?_, ((rest p s).drop (4 + bytes.length)).take (Packet.realignCount bytes.length), ?_, ?_⟩,
    List.take_prefix _ _, ?_⟩
  · rw [← hdecl, declaredLen, u32Max]
    have := (u32FromNeBytes t ((rest p s).take 4)).toNat_lt
    omega
  · rw [List.length_take, List.length_drop]
    omega
  · rw [List.take_add, List.take_add, List.drop_drop, ← hbytes, hword, List.append_assoc]
  · rw [hs', List.length_take]
    congr 1
    omega

theorem readSlice_of_encodes {bytes chunk : List UInt8} (hc : EncodesSlice t bytes chunk)
    (hpre : chunk <+: rest p s) (hmax : s.payloadPos + chunk.length ≤ t.usizeMax) :
    (readSlice t p).run s = .ok bytes (s.skip chunk.length 0) := by
  obtain ⟨hu32, padding, hpad, rfl⟩ := hc
  have hlen : (u32ToNeBytes t (UInt32.ofNat bytes.length) ++ bytes ++ padding).length =
      4 + (bytes.length + Packet.realignCount bytes.length) := by
    simp only [List.length_append, length_u32ToNeBytes, hpad, Nat.add_assoc]
  have hfits := hpre.length_le
  rw [hlen] at hfits hmax ⊢
  simp only [rest, List.length_drop] at hfits
  have hdecl : declaredLen t p s = bytes.length := by
    have hword : u32ToNeBytes t (UInt32.ofNat bytes.length) <+: rest p s := by
      refine List.IsPrefix.trans ?_ hpre
      rw [List.append_assoc]
      exact List.prefix_append _ _
    rw [declaredLen, u32FromNeBytes_of_isPrefix hword]
    refine UInt32.toNat_ofNat_of_lt' ?_
    rw [u32Max] at hu32
    show bytes.length < 2 ^ 32
    omega
  rw [readSlice_eq, declaredStop, hdecl, if_neg (by omega), if_neg (by omega), if_neg (by omega),
    if_neg (by omega)]
  obtain ⟨tail, htail⟩ := hpre
  rw [← htail, List.append_assoc, List.append_assoc, List.drop_left' (length_u32ToNeBytes t _),
    List.take_left]

theorem readStr_ok {v : String} (h : (readStr t p).run s = .ok v s') :
    ∃ chunk, EncodesStr t v chunk ∧ chunk <+: rest p s ∧ s' = s.skip chunk.length 0 := by
  rw [readStr_eq] at h
  cases hslice : (readSlice t p).run s with
  | error e s₁ => simp [hslice] at h
  | ok slice s₁ =>
    rw [hslice] at h
    cases hstr : strOfSlice slice with
    | error e => simp [hstr] at h
    | ok stringy =>
      simp only [hstr, EStateM.Result.ok.injEq] at h
      obtain ⟨rfl, rfl⟩ := h
      obtain ⟨rfl, hnul⟩ := strOfSlice_eq_ok.mp hstr
      obtain ⟨chunk, hc, hpre, hs'⟩ := readSlice_ok hslice
      exact ⟨chunk, ⟨hnul, hc⟩, hpre, hs'⟩

theorem readStr_of_encodes {v : String} {chunk : List UInt8} (hc : EncodesStr t v chunk)
    (hpre : chunk <+: rest p s) (hmax : s.payloadPos + chunk.length ≤ t.usizeMax) :
    (readStr t p).run s = .ok v (s.skip chunk.length 0) := by
  rw [readStr_eq, readSlice_of_encodes hc.2 hpre hmax]
  simp only [strOfSlice_eq_ok.mpr ⟨rfl, hc.1⟩]

theorem readUint_ok {v : UInt32} (h : (readUint t p).run s = .ok v s') :
    u32ToNeBytes t v <+: rest p s ∧ s' = s.skip 4 0 := by
  obtain ⟨chunk, hlen, rfl, hpre, hs'⟩ := readWord_ok h
  exact ⟨by rwa [u32ToNeBytes_u32FromNeBytes hlen], hs'⟩

theorem readUint_of_isPrefix {v : UInt32} (hpre : u32ToNeBytes t v <+: rest p s)
    (hmax : s.payloadPos + 4 ≤ t.usizeMax) : (readUint t p).run s = .ok v (s.skip 4 0) := by
  rw [readUint, readWord_of_isPrefix (length_u32ToNeBytes t v) hpre hmax,
    u32FromNeBytes_u32ToNeBytes]

theorem readInt_eq : (readInt t p).run s = (UInt32.toInt32 <$> readUint t p).run s := by
  rw [← bind_pure_comp, readUint, readInt]
  simp only [bind_assoc, pure_bind]

theorem readFixed_eq :
    (readFixed t p).run s = ((fun v => Fixed.mk v.toInt32) <$> readUint t p).run s := by
  rw [← bind_pure_comp, readUint, readFixed]
  simp only [bind_assoc, pure_bind]

theorem objectWord_new (v : UInt32) : objectWord (ObjectId.new v) = v := by
  unfold ObjectId.new
  split
  · next h => exact h.symm
  · rfl

@[simp] theorem new_objectWord (v : Option ObjectId) : ObjectId.new (objectWord v) = v := by
  cases v <;> simp [objectWord]

theorem readObject_ok {v : Option ObjectId} (h : (readObject t p).run s = .ok v s') :
    u32ToNeBytes t (objectWord v) <+: rest p s ∧ s' = s.skip 4 0 := by
  obtain ⟨oid, s₁, hread, hv⟩ := run_bind_eq_ok.mp h
  cases hv
  rw [objectWord_new]
  exact readUint_ok hread

theorem readObject_of_isPrefix {v : Option ObjectId}
    (hpre : u32ToNeBytes t (objectWord v) <+: rest p s)
    (hmax : s.payloadPos + 4 ≤ t.usizeMax) : (readObject t p).run s = .ok v (s.skip 4 0) := by
  rw [readObject, run_bind_of_ok (readUint_of_isPrefix hpre hmax), new_objectWord]
  rfl

theorem readNewIdKnownInterface_ok {v : NewObjectId}
    (h : (readNewIdKnownInterface t p).run s = .ok v s') :
    u32ToNeBytes t v.objectId.val <+: rest p s ∧ s' = s.skip 4 0 := by
  obtain ⟨oidOpt, s₁, hread, hv⟩ := run_bind_eq_ok.mp h
  cases oidOpt with
  | none => cases hv
  | some oid =>
    cases hv
    exact readObject_ok hread

theorem readNewIdKnownInterface_of_isPrefix {v : NewObjectId}
    (hpre : u32ToNeBytes t v.objectId.val <+: rest p s)
    (hmax : s.payloadPos + 4 ≤ t.usizeMax) :
    (readNewIdKnownInterface t p).run s = .ok v (s.skip 4 0) := by
  rw [readNewIdKnownInterface,
    run_bind_of_ok (readObject_of_isPrefix (v := some v.objectId) hpre hmax)]
  rfl

/-- After a chunk comes what follows it. -/
theorem rest_skip (p : Packet) (s : PacketReader) (n m : Nat) :
    rest p (s.skip n m) = (rest p s).drop n := by
  simp [rest, skip, List.drop_drop]

theorem prefix_drop {α : Type} {a b c : List α} (h : a ++ b <+: c) :
    a <+: c ∧ b <+: c.drop a.length := by
  obtain ⟨tail, rfl⟩ := h
  rw [List.append_assoc]
  exact ⟨List.prefix_append _ _, by rw [List.drop_left]; exact List.prefix_append _ _⟩

theorem prefix_append_of_drop {α : Type} {a b c : List α} (ha : a <+: c)
    (hb : b <+: c.drop a.length) : a ++ b <+: c := by
  obtain ⟨tail, rfl⟩ := ha
  rw [List.drop_left] at hb
  exact List.prefix_append_right_inj a |>.mpr hb

theorem readNewIdUnknownInterface_ok {v : NewObject}
    (h : (readNewIdUnknownInterface t p).run s = .ok v s') :
    ∃ chunk, Encodes t (.newObject v) chunk ∧ chunk <+: rest p s ∧ s' = s.skip chunk.length 0 := by
  obtain ⟨interface, s₁, hstr, h⟩ := run_bind_eq_ok.mp h
  obtain ⟨version, s₂, huint, h⟩ := run_bind_eq_ok.mp h
  obtain ⟨oidOpt, s₃, hobj, hv⟩ := run_bind_eq_ok.mp h
  obtain ⟨str, hc, hpre, rfl⟩ := readStr_ok hstr
  obtain ⟨hversion, rfl⟩ := readUint_ok huint
  obtain ⟨hoid, rfl⟩ := readObject_ok hobj
  cases oidOpt with
  | none => cases hv
  | some oid =>
    cases hv
    rw [rest_skip] at hversion
    rw [rest_skip, rest_skip] at hoid
    refine ⟨_, ⟨str, hc, rfl⟩, ?_, ?_⟩
    · refine prefix_append_of_drop hpre (prefix_append_of_drop hversion ?_)
      rw [length_u32ToNeBytes]
      exact hoid
    · simp [skip_skip]

theorem readNewIdUnknownInterface_of_encodes {v : NewObject} {chunk : List UInt8}
    (hc : Encodes t (.newObject v) chunk) (hpre : chunk <+: rest p s)
    (hmax : s.payloadPos + chunk.length ≤ t.usizeMax) :
    (readNewIdUnknownInterface t p).run s = .ok v (s.skip chunk.length 0) := by
  obtain ⟨str, hstr, rfl⟩ := hc
  obtain ⟨hpre₁, hpre₂⟩ := prefix_drop hpre
  obtain ⟨hpre₂, hpre₃⟩ := prefix_drop hpre₂
  rw [← rest_skip p s str.length 0] at hpre₂ hpre₃
  rw [length_u32ToNeBytes, ← rest_skip p _ 4 0] at hpre₃
  simp only [List.length_append, length_u32ToNeBytes] at hmax
  have hmax₂ : (s.skip str.length 0).payloadPos + 4 ≤ t.usizeMax := by
    simp only [skip]
    omega
  have hmax₃ : ((s.skip str.length 0).skip 4 0).payloadPos + 4 ≤ t.usizeMax := by
    simp only [skip]
    omega
  rw [readNewIdUnknownInterface, run_bind_of_ok (readStr_of_encodes hstr hpre₁ (by omega)),
    run_bind_of_ok (readUint_of_isPrefix hpre₂ hmax₂),
    run_bind_of_ok (readObject_of_isPrefix (v := some v.objectId) hpre₃ hmax₃)]
  simp [skip_skip]

theorem readFd_ok {v : RawFd} (h : (readFd t p).run s = .ok v s') :
    [v] <+: p.fds.drop s.fdPos ∧ s' = s.skip 0 1 := by
  rw [readFd_eq] at h
  cases hget : p.fds[s.fdPos]? with
  | none => simp [hget] at h
  | some fd =>
    simp only [hget] at h
    split at h
    · cases h
    · cases h
      obtain ⟨hlt, hfd⟩ := List.getElem?_eq_some_iff.mp hget
      rw [List.drop_eq_getElem_cons hlt, hfd]
      exact ⟨⟨_, rfl⟩, rfl⟩

theorem readFd_of_isPrefix {v : RawFd} (hpre : [v] <+: p.fds.drop s.fdPos)
    (hmax : s.fdPos + 1 ≤ t.usizeMax) : (readFd t p).run s = .ok v (s.skip 0 1) := by
  obtain ⟨tail, htail⟩ := hpre
  have hget : p.fds[s.fdPos]? = some v := by
    rw [← Nat.add_zero s.fdPos, ← List.getElem?_drop, ← htail]
    rfl
  rw [readFd_eq, hget]
  exact if_neg (Nat.not_lt.mpr hmax)

end Reads

/-! ## What the emitted reads accept -/

section ReadFuncs

variable {t : Target} {p : Packet} {s s' : PacketReader}

/-- A read that succeeds consumes a chunk of its value, and the value's
descriptors. -/
theorem readFunc_ok {f : ReadFunc} {v : Value} (h : (f.run t p).run s = .ok v s') :
    v.type = f.returns ∧ ∃ chunk, Encodes t v chunk ∧ chunk <+: rest p s ∧
      v.fds <+: p.fds.drop s.fdPos ∧ s' = s.skip chunk.length v.fds.length := by
  -- the word reads, and then the four that read something else
  have word : ∀ {v : Value} {w : UInt32}, Encodes t v (u32ToNeBytes t w) → v.fds = [] →
      (u32ToNeBytes t w <+: rest p s ∧ s' = s.skip 4 0) →
      ∃ chunk, Encodes t v chunk ∧ chunk <+: rest p s ∧
        v.fds <+: p.fds.drop s.fdPos ∧ s' = s.skip chunk.length v.fds.length := by
    intro v w hc hfds ⟨hpre, hs'⟩
    exact ⟨_, hc, hpre, hfds ▸ List.nil_prefix, by simpa [hfds] using hs'⟩
  cases f with
  | readUint =>
    obtain ⟨x, hx, rfl⟩ := run_map_eq_ok.mp h
    exact ⟨rfl, word rfl rfl (readUint_ok hx)⟩
  | readInt =>
    obtain ⟨x, hx, rfl⟩ := run_map_eq_ok.mp h
    rw [readInt_eq] at hx
    obtain ⟨w, hw, rfl⟩ := run_map_eq_ok.mp hx
    exact ⟨rfl, word rfl rfl (readUint_ok hw)⟩
  | readFixed =>
    obtain ⟨x, hx, rfl⟩ := run_map_eq_ok.mp h
    rw [readFixed_eq] at hx
    obtain ⟨w, hw, rfl⟩ := run_map_eq_ok.mp hx
    exact ⟨rfl, word rfl rfl (readUint_ok hw)⟩
  | readObject =>
    obtain ⟨x, hx, rfl⟩ := run_map_eq_ok.mp h
    exact ⟨rfl, word rfl rfl (readObject_ok hx)⟩
  | readNewIdKnownInterface =>
    obtain ⟨x, hx, rfl⟩ := run_map_eq_ok.mp h
    exact ⟨rfl, word rfl rfl (readNewIdKnownInterface_ok hx)⟩
  | readStr =>
    obtain ⟨x, hx, rfl⟩ := run_map_eq_ok.mp h
    obtain ⟨chunk, hc, hpre, hs'⟩ := readStr_ok hx
    exact ⟨rfl, chunk, hc, hpre, List.nil_prefix, hs'⟩
  | readNewIdUnknownInterface =>
    obtain ⟨x, hx, rfl⟩ := run_map_eq_ok.mp h
    obtain ⟨chunk, hc, hpre, hs'⟩ := readNewIdUnknownInterface_ok hx
    exact ⟨rfl, chunk, hc, hpre, List.nil_prefix, hs'⟩
  | readArray =>
    obtain ⟨x, hx, rfl⟩ := run_map_eq_ok.mp h
    obtain ⟨chunk, hc, hpre, hs'⟩ := readSlice_ok hx
    exact ⟨rfl, chunk, hc, hpre, List.nil_prefix, hs'⟩
  | readFd =>
    obtain ⟨x, hx, rfl⟩ := run_map_eq_ok.mp h
    obtain ⟨hpre, hs'⟩ := readFd_ok hx
    exact ⟨rfl, [], rfl, List.nil_prefix, hpre, hs'⟩

/-- Every chunk of a value of the right type is read as that value. -/
theorem readFunc_of_encodes {f : ReadFunc} {v : Value} {chunk : List UInt8}
    (hty : v.type = f.returns) (hc : Encodes t v chunk) (hpre : chunk <+: rest p s)
    (hfds : v.fds <+: p.fds.drop s.fdPos) (hmax : s.payloadPos + chunk.length ≤ t.usizeMax)
    (hfdmax : s.fdPos + v.fds.length ≤ t.usizeMax) :
    (f.run t p).run s = .ok v (s.skip chunk.length v.fds.length) := by
  cases f <;> cases v <;> cases hty
  case readUint.uint w =>
    cases hc
    rw [length_u32ToNeBytes] at hmax ⊢
    exact run_map_eq_ok.mpr ⟨w, readUint_of_isPrefix hpre hmax, rfl⟩
  case readInt.int w =>
    cases hc
    rw [length_u32ToNeBytes] at hmax ⊢
    refine run_map_eq_ok.mpr ⟨w, ?_, rfl⟩
    rw [readInt_eq]
    exact run_map_eq_ok.mpr ⟨_, readUint_of_isPrefix hpre hmax, rfl⟩
  case readFixed.fixed w =>
    cases hc
    rw [length_u32ToNeBytes] at hmax ⊢
    refine run_map_eq_ok.mpr ⟨w, ?_, rfl⟩
    rw [readFixed_eq]
    exact run_map_eq_ok.mpr ⟨_, readUint_of_isPrefix hpre hmax, rfl⟩
  case readObject.object v =>
    cases hc
    rw [length_u32ToNeBytes] at hmax ⊢
    exact run_map_eq_ok.mpr ⟨v, readObject_of_isPrefix hpre hmax, rfl⟩
  case readNewIdKnownInterface.newId n =>
    cases hc
    rw [length_u32ToNeBytes] at hmax ⊢
    exact run_map_eq_ok.mpr ⟨n, readNewIdKnownInterface_of_isPrefix hpre hmax, rfl⟩
  case readStr.string v =>
    exact run_map_eq_ok.mpr ⟨v, readStr_of_encodes hc hpre hmax, rfl⟩
  case readNewIdUnknownInterface.newObject n =>
    exact run_map_eq_ok.mpr ⟨n, readNewIdUnknownInterface_of_encodes hc hpre hmax, rfl⟩
  case readArray.array bytes =>
    exact run_map_eq_ok.mpr ⟨bytes, readSlice_of_encodes hc hpre hmax, rfl⟩
  case readFd.fd v =>
    cases hc
    exact run_map_eq_ok.mpr ⟨v, readFd_of_isPrefix hfds hfdmax, rfl⟩

end ReadFuncs

end WhaleLand
