import WhaleLand.WireFormat

/-!
# Encoding and decoding argument lists

`encode t v` is the chunk that the push functions write for `v`: the chunk of
the wire format whose padding is zero. From what one read and one push do
(`readFunc_ok`, `readFunc_of_encodes`, `writeFunc_of_pushable`), an induction
over the argument list gives what a whole list does (`decodeArgs_ok`,
`decodeArgs_of_encodes`, `pushArgs_ok`).
-/

namespace WhaleLand

open Wlproto PacketReader

/-! ## What the pushes write -/

def encodeSlice (t : Target) (bytes : List UInt8) : List UInt8 :=
  u32ToNeBytes t (UInt32.ofNat bytes.length) ++ bytes ++
    List.replicate (Packet.realignCount bytes.length) 0

def encodeStr (t : Target) (s : String) : List UInt8 := encodeSlice t (strBytes s ++ [0])

/-- The bytes that a value adds to the payload. -/
def encode (t : Target) : Value → List UInt8
  | .uint v => u32ToNeBytes t v
  | .int v => u32ToNeBytes t v.toUInt32
  | .fixed v => u32ToNeBytes t v.innerValue.toUInt32
  | .string s => encodeStr t s
  | .object v => u32ToNeBytes t (objectWord v)
  | .newId n => u32ToNeBytes t n.objectId.val
  | .newObject n => encodeStr t n.interface ++
      (u32ToNeBytes t n.interfaceVersion ++ u32ToNeBytes t n.objectId.val)
  | .array bytes => encodeSlice t bytes
  | .fd _ => []

def encodeAll (t : Target) (vs : List Value) : List UInt8 := vs.flatMap (encode t)

section Pushes

variable {t : Target} {p : Packet}

theorem encodesSlice_encodeSlice {bytes : List UInt8} (h : bytes.length ≤ u32Max) :
    EncodesSlice t bytes (encodeSlice t bytes) :=
  ⟨h, _, List.length_replicate, rfl⟩

theorem encodesStr_encodeStr {s : String} (h : Value.StrPushable s) :
    EncodesStr t s (encodeStr t s) :=
  ⟨h.1, encodesSlice_encodeSlice (by simpa using h.2)⟩

/-- What is pushed is in the wire format. -/
theorem encodes_encode {v : Value} (h : v.Pushable) : Encodes t v (encode t v) := by
  cases v with
  | string s => exact encodesStr_encodeStr h
  | newObject n => exact ⟨_, encodesStr_encodeStr h, rfl⟩
  | array bytes => exact encodesSlice_encodeSlice h
  | uint _ | int _ | fixed _ | object _ | newId _ | fd _ => rfl

theorem encodesAll_encodeAll {vs : List Value} (h : ∀ v ∈ vs, v.Pushable) :
    EncodesAll t vs (encodeAll t vs) := by
  induction vs with
  | nil => rfl
  | cons v vs ih =>
    exact ⟨_, _, encodes_encode (h v List.mem_cons_self),
      ih fun w hw => h w (List.mem_cons_of_mem v hw), rfl⟩

/-- Only values that their push function accepts have a place in the wire
format. -/
theorem pushable_of_encodes {v : Value} {chunk : List UInt8} (h : Encodes t v chunk) :
    v.Pushable := by
  have str : ∀ {s : String} {chunk : List UInt8}, EncodesStr t s chunk → Value.StrPushable s :=
    fun hs => ⟨hs.1, by simpa using hs.2.1⟩
  cases v with
  | string s => exact str h
  | newObject n =>
    obtain ⟨_, hs, _⟩ := h
    exact str hs
  | array bytes => exact h.1
  | uint _ | int _ | fixed _ | object _ | newId _ | fd _ => trivial

theorem pushable_of_encodesAll {vs : List Value} {chunk : List UInt8}
    (h : EncodesAll t vs chunk) : ∀ v ∈ vs, v.Pushable := by
  induction vs generalizing chunk with
  | nil => simp
  | cons v vs ih =>
    obtain ⟨_, _, hv, hvs, _⟩ := h
    exact List.forall_mem_cons.mpr ⟨pushable_of_encodes hv, ih hvs⟩

theorem pushStr_of_pushable {s : String} (h : Value.StrPushable s) :
    p.pushStr t s = .ok (p.extend (encodeStr t s)) := by
  rw [Packet.pushStr, if_neg h.1]
  simp only [if_neg (Nat.not_lt.mpr h.2), Packet.extend, encodeStr, encodeSlice,
    List.length_append, List.length_singleton, List.append_assoc]
  rfl

theorem pushArray_of_pushable {bytes : List UInt8} (h : bytes.length ≤ u32Max) :
    p.pushArray t bytes = .ok (p.extend (encodeSlice t bytes)) := by
  rw [Packet.pushArray]
  simp only [if_neg (Nat.not_lt.mpr h), Packet.extend, encodeSlice, List.append_assoc]
  rfl

theorem pushObject_eq (v : Option ObjectId) :
    p.pushObject t v = p.extend (u32ToNeBytes t (objectWord v)) := by
  cases v <;> rfl

theorem extend_extend (a b : List UInt8) : (p.extend a).extend b = p.extend (a ++ b) := by
  simp [Packet.extend]

/-- A push adds the value's chunk to the payload, and its descriptors to the
descriptors. -/
theorem writeFunc_of_pushable {f : WriteFunc} {v : Value} (hty : v.type = f.takes)
    (h : v.Pushable) :
    f.run t p v = .ok { p with payload := p.payload ++ encode t v, fds := p.fds ++ v.fds } := by
  -- values other than descriptors only extend the payload
  have hextend : ∀ {chunk : List UInt8}, p.extend chunk =
      { p with payload := p.payload ++ chunk, fds := p.fds ++ [] } := by
    simp [Packet.extend]
  cases f <;> cases v <;> cases hty
  case pushStr.string s => exact (pushStr_of_pushable h).trans (congrArg _ hextend)
  case pushArray.array bytes => exact (pushArray_of_pushable h).trans (congrArg _ hextend)
  case pushObject.object v => exact congrArg _ ((pushObject_eq v).trans hextend)
  case pushNewIdUnknownInterface.newObject n =>
    rw [WriteFunc.run, Packet.pushNewIdUnknownInterface, pushStr_of_pushable h]
    show Except.ok (((p.extend _).extend _).pushObject t _) = _
    rw [pushObject_eq, extend_extend, extend_extend]
    exact congrArg _ hextend
  case pushFd.fd v => simp [WriteFunc.run, Packet.pushFd, encode, Value.fds]
  all_goals exact congrArg _ hextend

theorem pushArgs_ok {args : List Arg} {vs : List Value} (hty : WellTyped args vs)
    (h : ∀ v ∈ vs, v.Pushable) :
    pushArgs t p args vs =
      .ok { p with payload := p.payload ++ encodeAll t vs, fds := p.fds ++ fdsOfValues vs } := by
  induction hty generalizing p with
  | nil => simp [pushArgs, encodeAll, fdsOfValues]
  | @cons arg v args vs hv _ ih =>
    obtain ⟨hpush, hpushes⟩ := List.forall_mem_cons.mp h
    rw [pushArgs, writeFunc_of_pushable (hv.trans (writeFunc_takes arg).symm) hpush]
    show pushArgs t _ args vs = _
    rw [ih hpushes]
    simp [encodeAll, fdsOfValues]

end Pushes

/-! ## Alignment -/

section Alignment

variable {t : Target}

theorem four_dvd_of_encodesSlice {bytes chunk : List UInt8} (h : EncodesSlice t bytes chunk) :
    4 ∣ chunk.length := by
  obtain ⟨_, padding, hpad, rfl⟩ := h
  simp only [List.length_append, length_u32ToNeBytes, hpad, Packet.realignCount]
  omega

/-- Every chunk is a whole number of words. -/
theorem four_dvd_of_encodes {v : Value} {chunk : List UInt8} (h : Encodes t v chunk) :
    4 ∣ chunk.length := by
  cases v with
  | string s => exact four_dvd_of_encodesSlice h.2
  | newObject n =>
    obtain ⟨str, hstr, rfl⟩ := h
    have := four_dvd_of_encodesSlice hstr.2
    simp only [List.length_append, length_u32ToNeBytes]
    omega
  | array bytes => exact four_dvd_of_encodesSlice h
  | fd v => simp [h.symm ▸ List.length_nil]
  | uint _ | int _ | fixed _ | object _ | newId _ => simp [h.symm ▸ length_u32ToNeBytes t _]

theorem four_dvd_of_encodesAll {vs : List Value} {chunk : List UInt8}
    (h : EncodesAll t vs chunk) : 4 ∣ chunk.length := by
  induction vs generalizing chunk with
  | nil => simp [h.symm ▸ List.length_nil]
  | cons v vs ih =>
    obtain ⟨first, others, hv, hvs, rfl⟩ := h
    rw [List.length_append]
    exact Nat.dvd_add (four_dvd_of_encodes hv) (ih hvs)

end Alignment

/-! ## What the reads of an argument list accept -/

section Reads

variable {t : Target} {p : Packet} {args : List Arg} {vs : List Value}

theorem readArgs_ok {s s' : PacketReader} (h : (readArgs t p args).run s = .ok vs s') :
    WellTyped args vs ∧ ∃ chunk, EncodesAll t vs chunk ∧ chunk <+: rest p s ∧
      fdsOfValues vs <+: p.fds.drop s.fdPos ∧
      s' = s.skip chunk.length (fdsOfValues vs).length := by
  induction args generalizing s vs with
  | nil =>
    cases h
    exact ⟨.nil, [], rfl, List.nil_prefix, List.nil_prefix, rfl⟩
  | cons arg args ih =>
    obtain ⟨v, s₁, hv, h⟩ := run_bind_eq_ok.mp h
    obtain ⟨vs', s₂, hvs, hlast⟩ := run_bind_eq_ok.mp h
    cases hlast
    obtain ⟨hty, first, hfirst, hpre, hfds, rfl⟩ := readFunc_ok hv
    obtain ⟨htys, others, hothers, hpres, hfdss, rfl⟩ := ih hvs
    rw [rest_skip] at hpres
    simp only [skip, ← List.drop_drop] at hfdss
    refine ⟨.cons (hty.trans (readFunc_returns arg)) htys, first ++ others,
      ⟨first, others, hfirst, hothers, rfl⟩, prefix_append_of_drop hpre hpres,
      prefix_append_of_drop hfds hfdss, ?_⟩
    rw [skip_skip, fdsOfValues_cons, List.length_append, List.length_append]

theorem readArgs_of_encodes {s : PacketReader} {chunk : List UInt8} (hty : WellTyped args vs)
    (hc : EncodesAll t vs chunk) (hpre : chunk <+: rest p s)
    (hfds : fdsOfValues vs <+: p.fds.drop s.fdPos)
    (hmax : s.payloadPos + chunk.length ≤ t.usizeMax)
    (hfdmax : s.fdPos + (fdsOfValues vs).length ≤ t.usizeMax) :
    (readArgs t p args).run s = .ok vs (s.skip chunk.length (fdsOfValues vs).length) := by
  induction hty generalizing s chunk with
  | nil =>
    cases hc
    rfl
  | @cons arg v args vs hv _ ih =>
    obtain ⟨first, others, hfirst, hothers, rfl⟩ := hc
    obtain ⟨hpre₁, hpre₂⟩ := prefix_drop hpre
    obtain ⟨hfds₁, hfds₂⟩ := prefix_drop (b := fdsOfValues vs) hfds
    rw [List.length_append] at hmax
    rw [fdsOfValues_cons, List.length_append] at hfdmax ⊢
    have hread := readFunc_of_encodes (hv.trans (readFunc_returns arg).symm) hfirst hpre₁ hfds₁
      (by omega) (by omega)
    rw [readArgs, run_bind_of_ok hread]
    rw [← rest_skip p s first.length v.fds.length] at hpre₂
    rw [List.drop_drop] at hfds₂
    rw [run_bind_of_ok (ih hothers hpre₂ hfds₂ (by simp only [skip]; omega)
      (by simp only [skip]; omega))]
    rw [skip_skip, ← List.length_append, ← List.length_append]
    rfl

/-- A packet that decodes is the chunks of its values side by side, and nothing
else. -/
theorem decodeArgs_ok (h : decodeArgs t args p = .ok vs) :
    WellTyped args vs ∧ EncodesAll t vs p.payload ∧ fdsOfValues vs = p.fds := by
  unfold decodeArgs runReader at h
  split at h
  · next hrun =>
    cases h
    obtain ⟨vs', s₁, hread, hrun⟩ := run_bind_eq_ok.mp hrun
    obtain ⟨_, s₂, hfin, hlast⟩ := run_bind_eq_ok.mp hrun
    cases hlast
    obtain ⟨hty, chunk, hc, hpre, hfds, rfl⟩ := readArgs_ok hread
    -- `finish` leaves no room between the chunks and the whole payload
    rw [finish_eq] at hfin
    split at hfin
    · next hall =>
      simp only [Packet.read, skip, Nat.zero_add] at hall hpre hfds
      have hpayload : chunk = p.payload := hpre.eq_of_length_le hall.1
      have hfdsAll : fdsOfValues vs = p.fds := hfds.eq_of_length_le hall.2
      exact ⟨hty, hpayload ▸ hc, hfdsAll⟩
    · cases hfin
  · cases h

/-- Every packet in the wire format is decoded. -/
theorem decodeArgs_of_encodes (hp : p.Allocated t) (hty : WellTyped args vs)
    (hc : EncodesAll t vs p.payload) (hfds : fdsOfValues vs = p.fds) :
    decodeArgs t args p = .ok vs := by
  have hmax := t.isizeMax_add_lt
  have hread : (readArgs t p args).run Packet.read =
      .ok vs (Packet.read.skip p.payload.length p.fds.length) := by
    rw [← hfds]
    refine readArgs_of_encodes hty hc (List.prefix_refl _) ?_ ?_ ?_
    · rw [hfds]
      exact List.prefix_refl _
    · have := hp.payload
      simp only [Packet.read]
      omega
    · have := hp.fds
      rw [hfds]
      simp only [Packet.read]
      omega
  have hfin : (finish p).run (Packet.read.skip p.payload.length p.fds.length) =
      .ok () (Packet.read.skip p.payload.length p.fds.length) := by
    rw [finish_eq, if_pos]
    simp [Packet.read, skip]
  unfold decodeArgs runReader
  rw [run_bind_of_ok hread, run_bind_of_ok hfin]
  rfl

end Reads

end WhaleLand
