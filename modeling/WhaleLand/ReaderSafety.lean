import WhaleLand.Generated

/-!
# Panics while decoding

Which calls on a reader panic, whatever the packet. A string read does
arithmetic on a length that the peer declared: a declared length of 0 is
decremented, and a large one can leave the range of a 32-bit `usize`
(`ReaderOp.Safe`). Everything else keeps the cursors inside the packet and
cannot panic (`settled_of_safe`), so a sequence of calls is free of panics
exactly when each of its calls is safe where it is made
(`never_panics_iff_safe`).
-/

namespace WhaleLand

open Wlproto PacketReader

/-- A call on a reader. -/
inductive ReaderOp
  | read (f : ReadFunc)
  | finish
deriving DecidableEq, Repr

namespace ReaderOp

def run (t : Target) (p : Packet) : ReaderOp → ReadM (Option Value)
  | .read f => some <$> f.run t p
  | .finish => (fun _ => none) <$> PacketReader.finish p

def Panics (t : Target) (p : Packet) (s : PacketReader) (op : ReaderOp) : Prop :=
  ∃ s', (op.run t p).run s = .error .panic s'

/-- The reader after the call, whether it succeeded or failed. -/
def next (t : Target) (p : Packet) (s : PacketReader) (op : ReaderOp) : PacketReader :=
  match (op.run t p).run s with
  | .ok _ s' => s'
  | .error _ s' => s'

/-- With a declared length to read, the end of the padded contents is in the
range of `usize`, and a string has at least its NUL. -/
def Safe (t : Target) (p : Packet) (s : PacketReader) : ReaderOp → Prop
  | .read .readStr | .read .readNewIdUnknownInterface =>
    s.payloadPos + 4 ≤ p.payload.length → declaredLen t p s ≠ 0 ∧ declaredStop t p s ≤ t.usizeMax
  | .read .readArray =>
    s.payloadPos + 4 ≤ p.payload.length → declaredStop t p s ≤ t.usizeMax
  | _ => True

end ReaderOp

/-- `P` holds of every call of the sequence, on the reader it is made on. -/
def Throughout (t : Target) (p : Packet) (P : PacketReader → ReaderOp → Prop) :
    PacketReader → List ReaderOp → Prop
  | _, [] => True
  | s, op :: ops => P s op ∧ Throughout t p P (op.next t p s) ops

/-! ## Calls that settle -/

/-- The cursors are inside the packet. -/
structure InBounds (p : Packet) (s : PacketReader) : Prop where
  payload : s.payloadPos ≤ p.payload.length
  fds : s.fdPos ≤ p.fds.length

/-- The call returned `Ok` or `Err`, with the cursors inside the packet. -/
def Settled {α : Type} (p : Packet) : EStateM.Result Fault PacketReader α → Prop
  | .ok _ s' => InBounds p s'
  | .error (.error _) s' => InBounds p s'
  | .error .panic _ => False

section Calls

variable {t : Target} {p : Packet} {s : PacketReader} {α β : Type}

theorem inBounds_read (p : Packet) : InBounds p Packet.read :=
  ⟨Nat.zero_le _, Nat.zero_le _⟩

theorem settled_bind {x : ReadM α} {f : α → ReadM β} (hx : Settled p (x.run s))
    (hf : ∀ a s', InBounds p s' → Settled p ((f a).run s')) : Settled p ((x >>= f).run s) := by
  cases hrun : x.run s with
  | ok a s' =>
    rw [hrun] at hx
    rw [run_bind_of_ok hrun]
    exact hf a s' hx
  | error e s' =>
    rw [hrun] at hx
    rw [run_bind_of_error hrun]
    cases e with
    | error e => exact hx
    | panic => exact hx

theorem settled_pure (a : α) (hs : InBounds p s) : Settled p ((pure a : ReadM α).run s) := hs

theorem settled_map {x : ReadM α} (f : α → β) (hx : Settled p (x.run s)) :
    Settled p ((f <$> x).run s) := by
  rw [← bind_pure_comp]
  exact settled_bind hx fun a _ hs' => settled_pure (f a) hs'

theorem panics_map {x : ReadM α} {f : α → β} {s' : PacketReader}
    (hx : x.run s = .error .panic s') : (f <$> x).run s = .error .panic s' := by
  rw [← bind_pure_comp]
  exact run_bind_of_error hx

variable (hp : p.Allocated t) (hs : InBounds p s)
include hp hs

/-- The four bytes of a word never reach the end of `usize`. -/
theorem wordEnd_le : s.payloadPos + 4 ≤ t.usizeMax := by
  have := t.isizeMax_add_lt
  have := hp.payload
  have := hs.payload
  omega

theorem settled_readWord (f : List UInt8 → α) :
    Settled p ((do
      let buf ← peekBytes t p 4
      advance t 4
      return f buf : ReadM α).run s) := by
  rw [readWord_eq, if_neg (Nat.not_lt.mpr (wordEnd_le hp hs))]
  split
  · exact hs
  · next hlen => exact ⟨Nat.not_lt.mp hlen, hs.fds⟩

theorem settled_readUint : Settled p ((readUint t p).run s) := settled_readWord hp hs _

theorem settled_readObject : Settled p ((readObject t p).run s) :=
  settled_bind (settled_readUint hp hs) fun _ _ hs' => settled_pure _ hs'

theorem settled_readNewIdKnownInterface : Settled p ((readNewIdKnownInterface t p).run s) := by
  refine settled_bind (settled_readObject hp hs) fun oidOpt s' hs' => ?_
  cases oidOpt with
  | none => exact hs'
  | some oid => exact hs'

theorem settled_readFd : Settled p ((readFd t p).run s) := by
  rw [readFd_eq]
  cases hget : p.fds[s.fdPos]? with
  | none => exact hs
  | some fd =>
    have hlt : s.fdPos < p.fds.length := (List.getElem?_eq_some_iff.mp hget).1
    have hmax : ¬ t.usizeMax < s.fdPos + 1 := by
      have := t.isizeMax_add_lt
      have := hp.fds
      omega
    simp only [if_neg hmax]
    exact ⟨hs.payload, hlt⟩

/-- A length-prefixed read panics exactly when the declared end is beyond
`usize`. -/
theorem settled_readSlice
    (hstop : s.payloadPos + 4 ≤ p.payload.length → declaredStop t p s ≤ t.usizeMax) :
    Settled p ((readSlice t p).run s) := by
  rw [readSlice_eq, if_neg (Nat.not_lt.mpr (wordEnd_le hp hs))]
  split
  · exact hs
  · next hlen =>
    rw [if_neg (Nat.not_lt.mpr (hstop (Nat.not_lt.mp hlen)))]
    split
    · exact hs
    · next hfits =>
      refine ⟨?_, hs.fds⟩
      simp only [declaredStop] at hfits
      simp only [skip]
      omega

theorem panics_readSlice (hlen : s.payloadPos + 4 ≤ p.payload.length)
    (hstop : t.usizeMax < declaredStop t p s) :
    (readSlice t p).run s = .error .panic s := by
  rw [readSlice_eq, if_neg (Nat.not_lt.mpr (wordEnd_le hp hs)), if_neg (Nat.not_lt.mpr hlen),
    if_pos hstop]

/-- A string of at least one byte is accepted or refused. -/
theorem settled_readStr (h : s.payloadPos + 4 ≤ p.payload.length →
    declaredLen t p s ≠ 0 ∧ declaredStop t p s ≤ t.usizeMax) :
    Settled p ((readStr t p).run s) := by
  have hslice := settled_readSlice hp hs fun hlen => (h hlen).2
  rw [readStr_eq]
  cases hrun : (readSlice t p).run s with
  | error e s' =>
    rw [hrun] at hslice
    cases e with
    | error e => exact hslice
    | panic => exact hslice
  | ok slice s' =>
    rw [hrun] at hslice
    cases hstr : strOfSlice slice with
    | ok stringy =>
      simp only [hstr]
      exact hslice
    | error e =>
      cases e with
      | error e =>
        simp only [hstr]
        exact hslice
      | panic =>
        -- the slice is empty, so its declared length is 0
        obtain ⟨hlen, hstop, hslice, -⟩ := declared_of_readSlice hrun
        have hzero : declaredLen t p s = 0 := by
          rw [← length_declared hstop, ← hslice, strOfSlice_eq_panic.mp hstr]
          rfl
        exact absurd hzero (h hlen).1

theorem panics_readStr (hlen : s.payloadPos + 4 ≤ p.payload.length)
    (h : declaredLen t p s = 0 ∨ t.usizeMax < declaredStop t p s) :
    ∃ s', (readStr t p).run s = .error .panic s' := by
  by_cases hstop : t.usizeMax < declaredStop t p s
  · refine ⟨s, ?_⟩
    rw [readStr_eq, panics_readSlice hp hs hlen hstop]
  · have hzero : declaredLen t p s = 0 := h.resolve_right hstop
    have hend : ¬ p.payload.length < declaredStop t p s := by
      rw [declaredStop, hzero]
      simp only [Packet.realignCount]
      omega
    refine ⟨s.skip 4 0, ?_⟩
    rw [readStr_eq, readSlice_eq, if_neg (Nat.not_lt.mpr (wordEnd_le hp hs)),
      if_neg (Nat.not_lt.mpr hlen), if_neg hstop, if_neg hend, hzero]
    rfl

theorem settled_readNewIdUnknownInterface (h : s.payloadPos + 4 ≤ p.payload.length →
    declaredLen t p s ≠ 0 ∧ declaredStop t p s ≤ t.usizeMax) :
    Settled p ((readNewIdUnknownInterface t p).run s) := by
  refine settled_bind (settled_readStr hp hs h) fun interface s₁ hs₁ => ?_
  refine settled_bind (settled_readUint hp hs₁) fun version s₂ hs₂ => ?_
  refine settled_bind (settled_readObject hp hs₂) fun oidOpt s₃ hs₃ => ?_
  cases oidOpt with
  | none => exact hs₃
  | some oid => exact hs₃

omit hp in
theorem settled_finish : Settled p ((finish p).run s) := by
  rw [finish_eq]
  split <;> exact hs

/-! ## Safe calls settle, the others panic -/

theorem settled_of_safe {op : ReaderOp} (h : op.Safe t p s) : Settled p ((op.run t p).run s) := by
  cases op with
  | finish => exact settled_map _ (settled_finish hs)
  | read f =>
    refine settled_map some ?_
    cases f with
    | readUint => exact settled_map _ (settled_readUint hp hs)
    | readInt => exact settled_map _ (settled_readWord hp hs _)
    | readFixed => exact settled_map _ (settled_readWord hp hs _)
    | readStr => exact settled_map _ (settled_readStr hp hs h)
    | readObject => exact settled_map _ (settled_readObject hp hs)
    | readNewIdKnownInterface => exact settled_map _ (settled_readNewIdKnownInterface hp hs)
    | readNewIdUnknownInterface =>
      exact settled_map _ (settled_readNewIdUnknownInterface hp hs h)
    | readArray => exact settled_map _ (settled_readSlice hp hs h)
    | readFd => exact settled_map _ (settled_readFd hp hs)

theorem panics_of_not_safe {op : ReaderOp} (h : ¬ op.Safe t p s) : op.Panics t p s := by
  cases op with
  | finish => exact absurd trivial h
  | read f =>
    cases f with
    | readStr =>
      simp only [ReaderOp.Safe, Classical.not_imp, not_and_or, not_not, Nat.not_le] at h
      obtain ⟨s', hrun⟩ := panics_readStr hp hs h.1 h.2
      exact ⟨s', panics_map (panics_map hrun)⟩
    | readNewIdUnknownInterface =>
      simp only [ReaderOp.Safe, Classical.not_imp, not_and_or, not_not, Nat.not_le] at h
      obtain ⟨s', hrun⟩ := panics_readStr hp hs h.1 h.2
      exact ⟨s', panics_map (panics_map (run_bind_of_error hrun))⟩
    | readArray =>
      simp only [ReaderOp.Safe, Classical.not_imp, Nat.not_le] at h
      exact ⟨s, panics_map (panics_map (panics_readSlice hp hs h.1 h.2))⟩
    | readUint | readInt | readFixed | readObject | readNewIdKnownInterface | readFd =>
      exact absurd trivial h

end Calls

/-! ## Sequences of calls -/

section Sequences

variable {t : Target} {p : Packet}

theorem not_panics_of_settled {s : PacketReader} {op : ReaderOp}
    (h : Settled p ((op.run t p).run s)) : ¬ op.Panics t p s := by
  rintro ⟨s', hrun⟩
  rwa [hrun] at h

theorem inBounds_next {s : PacketReader} {op : ReaderOp} (h : Settled p ((op.run t p).run s)) :
    InBounds p (op.next t p s) := by
  unfold ReaderOp.next
  cases hrun : (op.run t p).run s with
  | ok a s' =>
    rw [hrun] at h
    exact h
  | error e s' =>
    rw [hrun] at h
    cases e with
    | error e => exact h
    | panic => exact h.elim

theorem throughout_iff (hp : p.Allocated t) {s : PacketReader} (hs : InBounds p s)
    (ops : List ReaderOp) :
    Throughout t p (fun s op => ¬ op.Panics t p s) s ops ↔
      Throughout t p (fun s op => op.Safe t p s) s ops := by
  induction ops generalizing s with
  | nil => exact Iff.rfl
  | cons op ops ih =>
    by_cases hsafe : op.Safe t p s
    · have hsettled := settled_of_safe hp hs hsafe
      simp only [Throughout, hsafe, not_panics_of_settled hsettled, not_false_eq_true, true_and]
      exact ih (inBounds_next hsettled)
    · simp only [Throughout, hsafe, panics_of_not_safe hp hs hsafe, not_true_eq_false, false_and]

/-- A sequence of calls on a received packet is free of panics exactly when
every string that is read declares at least its NUL, and no declared end
leaves the range of `usize`. Failed calls can come in between. -/
theorem never_panics_iff_safe (hp : p.Allocated t) (ops : List ReaderOp) :
    Throughout t p (fun s op => ¬ op.Panics t p s) Packet.read ops ↔
      Throughout t p (fun s op => op.Safe t p s) Packet.read ops :=
  throughout_iff hp (inBounds_read p) ops

/-- With a 64-bit `usize` no declared end leaves its range. -/
theorem declaredStop_le_of_w64 (ht : t.pointerWidth = .w64) (hp : p.Allocated t)
    {s : PacketReader} (hs : InBounds p s) : declaredStop t p s ≤ t.usizeMax := by
  have hdecl : declaredLen t p s < 2 ^ 32 :=
    (u32FromNeBytes t ((rest p s).take 4)).toNat_lt
  have hpayload := hp.payload
  have hpos := hs.payload
  simp only [Target.isizeMax, ht, PointerWidth.bits] at hpayload
  simp only [declaredStop, Packet.realignCount, Target.usizeMax, ht, PointerWidth.bits]
  omega

end Sequences

/-- An event whose string argument has the declared length 0. -/
def emptyStringPacket : Packet := ⟨.ofNat 2, 0, [0, 0, 0, 0], []⟩

theorem readStr_panics_on_empty_string :
    ¬ ∀ (t : Target) (p : Packet) (ops : List ReaderOp), p.Allocated t →
      Throughout t p (fun s op => ¬ op.Panics t p s) Packet.read ops := by
  intro h
  have hcalls := h ⟨.little, .w64⟩ emptyStringPacket [.read .readStr]
    ⟨by decide, by decide⟩
  exact hcalls.1 ⟨⟨4, 0⟩, rfl⟩

/-- Two reads that fail without a panic, and a `finish`. -/
theorem never_panics_iff_safe_finish :
    Throughout ⟨.little, .w32⟩ ⟨.ofNat 2, 0, [9, 0, 0, 0], []⟩
      (fun s op => ¬ op.Panics ⟨.little, .w32⟩ ⟨.ofNat 2, 0, [9, 0, 0, 0], []⟩ s)
      Packet.read [.read .readStr, .read .readFd, .finish] := by
  refine (never_panics_iff_safe ⟨by decide, by decide⟩ _).mpr ⟨fun _ => ?_, ?_⟩
  · exact ⟨by decide, by decide⟩
  · exact ⟨trivial, trivial, trivial⟩

end WhaleLand
