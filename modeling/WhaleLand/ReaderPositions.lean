import Mathlib.Data.Set.Lattice
import Mathlib.Order.CompletePartialOrder
import Mathlib.Order.Interval.Set.Basic
import WhaleLand.ReaderSafety
import WhaleLand.WireFormat

/-!
# The positions of the reader

Where the cursors can be along a sequence of calls on a reader, whether they
succeed or fail. No call moves a cursor back. Every field takes a multiple of 4
bytes that lie inside the payload, so `payload_pos` is always at the beginning
of a word or at the end (`advances_run`). So the fields that the successful
reads return lie side by side, in the order of the reads, and `finish` accepts
exactly the reader that is at the end of the packet (`calls_orderly`).
-/

namespace WhaleLand

open Wlproto PacketReader

/-! ## Definitions -/

/-- By both cursors. -/
instance : Preorder PacketReader := Preorder.lift fun s => (s.payloadPos, s.fdPos)

/-- The payload cursor is at a word or at the end, and both cursors are inside
the packet. -/
structure Placed (p : Packet) (s : PacketReader) : Prop where
  aligned : s.payloadPos % 4 = 0
  inBounds : InBounds p s

/-- The reader that a computation leaves, whatever its result. -/
def leaves {α : Type} : EStateM.Result Fault PacketReader α → PacketReader
  | .ok _ s' => s'
  | .error _ s' => s'

/-- From `s`, the computation moved forward to a place. -/
def Advances {α : Type} (p : Packet) (s : PacketReader)
    (r : EStateM.Result Fault PacketReader α) : Prop :=
  Placed p (leaves r) ∧ s ≤ leaves r

/-- A call with its result, and the reader before and after it. -/
structure Call where
  before : PacketReader
  op : ReaderOp
  result : Except Fault (Option Value)
  after : PacketReader

namespace Call

/-- The call of `op` on the reader `s`. -/
def make (t : Target) (p : Packet) (s : PacketReader) (op : ReaderOp) : Call :=
  match (op.run t p).run s with
  | .ok v s' => ⟨s, op, .ok v, s'⟩
  | .error e s' => ⟨s, op, .error e, s'⟩

/-- The payload that the call has moved over. -/
def span (c : Call) : Set Nat := Set.Ico c.before.payloadPos c.after.payloadPos

/-- The same for the descriptors. -/
def fdSpan (c : Call) : Set Nat := Set.Ico c.before.fdPos c.after.fdPos

/-- The bytes of the span. -/
def chunk (p : Packet) (c : Call) : List UInt8 :=
  (p.payload.drop c.before.payloadPos).take (c.after.payloadPos - c.before.payloadPos)

/-- The descriptors of the span. -/
def fds (p : Packet) (c : Call) : List RawFd :=
  (p.fds.drop c.before.fdPos).take (c.after.fdPos - c.before.fdPos)

/-- A read that returned `v`. -/
def Returns (c : Call) (v : Value) : Prop := c.result = .ok (some v)

end Call

/-- The calls of a sequence, up to the first one that panics. -/
def calls (t : Target) (p : Packet) : PacketReader → List ReaderOp → List Call
  | _, [] => []
  | s, op :: ops =>
    let call := Call.make t p s op
    match call.result with
    | .error .panic => [call]
    | _ => call :: calls t p call.after ops

/-- All positions of the one set are before those of the other. -/
def Precedes (A B : Set Nat) : Prop := ∀ i ∈ A, ∀ j ∈ B, i < j

/-- What the positions of a sequence of calls look like. -/
structure Orderly (t : Target) (p : Packet) (cs : List Call) : Prop where
  placed : ∀ c ∈ cs, Placed p c.before ∧ Placed p c.after
  forward : ∀ c ∈ cs, c.before ≤ c.after
  onward : cs.Pairwise fun c c' => c.after ≤ c'.before
  returned : ∀ c ∈ cs, ∀ v, c.Returns v → Encodes t v (c.chunk p) ∧ v.fds = c.fds p
  ascending : cs.Pairwise fun c c' => ∀ v v', c.Returns v → c'.Returns v' →
    Precedes c.span c'.span ∧ Precedes c.fdSpan c'.fdSpan
  disjoint : cs.Pairwise fun c c' => ∀ v v', c.Returns v → c'.Returns v' →
    Disjoint c.span c'.span ∧ Disjoint c.fdSpan c'.fdSpan
  finished : ∀ c ∈ cs, c.op = .finish → (c.result = .ok none ↔
    c.before.payloadPos = p.payload.length ∧ c.before.fdPos = p.fds.length)

/-! ## One call -/

section Calls

variable {t : Target} {p : Packet} {s : PacketReader} {α β : Type}

theorem le_skip (s : PacketReader) (n m : Nat) : s ≤ s.skip n m :=
  ⟨Nat.le_add_right _ _, Nat.le_add_right _ _⟩

theorem placed_read (p : Packet) : Placed p Packet.read := ⟨rfl, inBounds_read p⟩

theorem advances_refl {r : EStateM.Result Fault PacketReader α} (hs : Placed p s)
    (h : leaves r = s) : Advances p s r :=
  ⟨h ▸ hs, h.ge⟩

theorem advances_bind {x : ReadM α} {f : α → ReadM β} (hx : Advances p s (x.run s))
    (hf : ∀ a s', Placed p s' → Advances p s' ((f a).run s')) :
    Advances p s ((x >>= f).run s) := by
  cases hrun : x.run s with
  | ok a s' =>
    rw [hrun] at hx
    rw [run_bind_of_ok hrun]
    obtain ⟨hplaced, hle⟩ := hf a s' hx.1
    exact ⟨hplaced, hx.2.trans hle⟩
  | error e s' =>
    rw [hrun] at hx
    rw [run_bind_of_error hrun]
    exact hx

theorem advances_map {x : ReadM α} (f : α → β) (hx : Advances p s (x.run s)) :
    Advances p s ((f <$> x).run s) := by
  rw [← bind_pure_comp]
  exact advances_bind hx fun _ _ hs' => advances_refl hs' rfl

/-- A field of words that is all there. -/
theorem placed_skip (hs : Placed p s) {n : Nat} (hn : n % 4 = 0)
    (hend : s.payloadPos + n ≤ p.payload.length) : Placed p (s.skip n 0) := by
  obtain ⟨haligned, hbounds⟩ := hs
  refine ⟨?_, hend, hbounds.fds⟩
  show (s.payloadPos + n) % 4 = 0
  omega

/-- A string or an array is padded to whole words. -/
theorem padded_mod_four (len : Nat) : (4 + (len + Packet.realignCount len)) % 4 = 0 := by
  unfold Packet.realignCount
  omega

variable (hs : Placed p s)
include hs

theorem advances_readWord (f : List UInt8 → α) :
    Advances p s ((do
      let buf ← peekBytes t p 4
      advance t 4
      return f buf : ReadM α).run s) := by
  rw [readWord_eq]
  split
  · exact advances_refl hs rfl
  split
  · exact advances_refl hs rfl
  · next hlen => exact ⟨placed_skip hs rfl (Nat.not_lt.mp hlen), le_skip s 4 0⟩

theorem advances_readSlice : Advances p s ((readSlice t p).run s) := by
  rw [readSlice_eq]
  split
  · exact advances_refl hs rfl
  split
  · exact advances_refl hs rfl
  split
  · exact advances_refl hs rfl
  split
  · exact advances_refl hs rfl
  · next hstop =>
    refine ⟨placed_skip hs (padded_mod_four _) ?_, le_skip s _ 0⟩
    rw [← Nat.add_assoc]
    exact Nat.not_lt.mp hstop

/-- The checks of a string's contents come after the move. -/
theorem advances_readStr : Advances p s ((readStr t p).run s) := by
  have hslice := advances_readSlice (t := t) hs
  rw [readStr_eq]
  cases hrun : (readSlice t p).run s with
  | error e s' =>
    rw [hrun] at hslice
    exact hslice
  | ok stringSlice s' =>
    rw [hrun] at hslice
    dsimp only
    split
    · exact hslice
    · exact hslice

theorem advances_readObject : Advances p s ((readObject t p).run s) :=
  advances_bind (advances_readWord hs _) fun _ _ hs' => advances_refl hs' rfl

theorem advances_readNewIdKnownInterface :
    Advances p s ((readNewIdKnownInterface t p).run s) := by
  refine advances_bind (advances_readObject hs) fun oidOpt s' hs' => ?_
  cases oidOpt with
  | none => exact advances_refl hs' rfl
  | some oid => exact advances_refl hs' rfl

theorem advances_readNewIdUnknownInterface :
    Advances p s ((readNewIdUnknownInterface t p).run s) := by
  refine advances_bind (advances_readStr hs) fun interface s₁ hs₁ => ?_
  refine advances_bind (advances_readWord hs₁ _) fun version s₂ hs₂ => ?_
  refine advances_bind (advances_readObject hs₂) fun oidOpt s₃ hs₃ => ?_
  cases oidOpt with
  | none => exact advances_refl hs₃ rfl
  | some oid => exact advances_refl hs₃ rfl

theorem advances_readFd : Advances p s ((readFd t p).run s) := by
  rw [readFd_eq]
  split
  · exact advances_refl hs rfl
  · next fd hget =>
    split
    · exact advances_refl hs rfl
    · refine ⟨⟨hs.aligned, hs.inBounds.payload, ?_⟩, le_skip s 0 1⟩
      exact (List.getElem?_eq_some_iff.mp hget).1

theorem advances_finish : Advances p s ((finish p).run s) := by
  rw [finish_eq]
  split
  · exact advances_refl hs rfl
  · exact advances_refl hs rfl

/-- Every call moves the cursors forward to a place, if it moves them at all. -/
theorem advances_run (op : ReaderOp) : Advances p s ((op.run t p).run s) := by
  cases op with
  | finish => exact advances_map _ (advances_finish hs)
  | read f =>
    refine advances_map some ?_
    cases f with
    | readUint => exact advances_map _ (advances_readWord hs _)
    | readInt => exact advances_map _ (advances_readWord hs _)
    | readFixed => exact advances_map _ (advances_readWord hs _)
    | readStr => exact advances_map _ (advances_readStr hs)
    | readObject => exact advances_map _ (advances_readObject hs)
    | readNewIdKnownInterface => exact advances_map _ (advances_readNewIdKnownInterface hs)
    | readNewIdUnknownInterface =>
      exact advances_map _ (advances_readNewIdUnknownInterface hs)
    | readArray => exact advances_map _ (advances_readSlice hs)
    | readFd => exact advances_map _ (advances_readFd hs)

end Calls

/-! ## What a call records -/

section Make

variable {t : Target} {p : Packet} {s : PacketReader} {op : ReaderOp}

theorem make_before : (Call.make t p s op).before = s := by
  unfold Call.make
  split <;> rfl

theorem make_op : (Call.make t p s op).op = op := by
  unfold Call.make
  split <;> rfl

theorem make_after : (Call.make t p s op).after = leaves ((op.run t p).run s) := by
  unfold Call.make
  split <;> next hrun => rw [hrun]; rfl

theorem make_result {v : Option Value} (h : (Call.make t p s op).result = .ok v) :
    (op.run t p).run s = .ok v (Call.make t p s op).after := by
  unfold Call.make at h ⊢
  split at h
  · next hrun =>
    cases h
    rw [hrun]
  · cases h

/-- Only a read function returns a value. -/
theorem make_returns {v : Value} (h : (Call.make t p s op).Returns v) :
    ∃ f, op = .read f ∧ (f.run t p).run s = .ok v (Call.make t p s op).after := by
  have hrun := make_result h
  cases op with
  | finish =>
    obtain ⟨_, _, hv⟩ := run_map_eq_ok.mp hrun
    cases hv
  | read f =>
    obtain ⟨v', hf, hv⟩ := run_map_eq_ok.mp hrun
    cases hv
    exact ⟨f, rfl, hf⟩

/-- The chunk and the descriptors of a read are those of its value. -/
theorem make_returned {v : Value} (h : (Call.make t p s op).Returns v) :
    Encodes t v ((Call.make t p s op).chunk p) ∧ v.fds = (Call.make t p s op).fds p := by
  obtain ⟨f, -, hf⟩ := make_returns h
  obtain ⟨-, chunk, hchunk, hpre, hfds, hafter⟩ := readFunc_ok hf
  unfold Call.chunk Call.fds
  rw [make_before, hafter]
  show Encodes t v ((rest p s).take (s.payloadPos + chunk.length - s.payloadPos)) ∧
    v.fds = (p.fds.drop s.fdPos).take (s.fdPos + v.fds.length - s.fdPos)
  rw [Nat.add_sub_cancel_left, Nat.add_sub_cancel_left, ← List.prefix_iff_eq_take.mp hpre,
    ← List.prefix_iff_eq_take.mp hfds]
  exact ⟨hchunk, rfl⟩

/-- Inside the packet, what is not before the end is at the end. -/
theorem make_finished (hs : Placed p s) : (Call.make t p s .finish).result = .ok none ↔
    s.payloadPos = p.payload.length ∧ s.fdPos = p.fds.length := by
  have hbounds := hs.inBounds
  constructor
  · intro h
    obtain ⟨_, hfinish, -⟩ := run_map_eq_ok.mp (make_result h)
    rw [finish_eq] at hfinish
    split at hfinish
    · next hend =>
      exact ⟨le_antisymm hbounds.payload hend.1, le_antisymm hbounds.fds hend.2⟩
    · cases hfinish
  · rintro ⟨hpayload, hfds⟩
    have hrun : (ReaderOp.finish.run t p).run s = .ok none s := by
      refine run_map_eq_ok.mpr ⟨(), ?_, rfl⟩
      rw [finish_eq, if_pos ⟨hpayload.ge, hfds.ge⟩]
    unfold Call.make
    rw [hrun]

end Make

/-! ## Sequences of calls -/

section Sequences

variable {t : Target} {p : Packet}

theorem calls_cons (s : PacketReader) (op : ReaderOp) (ops : List ReaderOp) :
    calls t p s (op :: ops) = [Call.make t p s op] ∨
      calls t p s (op :: ops) =
        Call.make t p s op :: calls t p (Call.make t p s op).after ops := by
  rw [calls]
  split
  · exact .inl rfl
  · exact .inr rfl

theorem make_advances {s : PacketReader} (hs : Placed p s) (op : ReaderOp) :
    Placed p (Call.make t p s op).after ∧ s ≤ (Call.make t p s op).after := by
  rw [make_after]
  exact advances_run hs op

/-- The calls of a sequence are made on places, further and further on. -/
theorem mem_calls {s : PacketReader} (hs : Placed p s) {ops : List ReaderOp} {c : Call}
    (hc : c ∈ calls t p s ops) :
    ∃ s' op, Placed p s' ∧ s ≤ s' ∧ c = Call.make t p s' op := by
  induction ops generalizing s with
  | nil => cases hc
  | cons op ops ih =>
    obtain ⟨hplaced, hle⟩ := make_advances (t := t) hs op
    rcases calls_cons (t := t) (p := p) s op ops with hcalls | hcalls
    · rw [hcalls] at hc
      exact ⟨s, op, hs, le_refl s, List.mem_singleton.mp hc⟩
    · rw [hcalls] at hc
      rcases List.mem_cons.mp hc with rfl | htail
      · exact ⟨s, op, hs, le_refl s, rfl⟩
      · obtain ⟨s', op', hs', hle', rfl⟩ := ih hplaced htail
        exact ⟨s', op', hs', hle.trans hle', rfl⟩

/-- What every call on a place satisfies is true along a sequence. -/
theorem forall_mem_calls {P : Call → Prop}
    (h : ∀ s op, Placed p s → P (Call.make t p s op)) (ops : List ReaderOp) :
    ∀ c ∈ calls t p Packet.read ops, P c := by
  intro c hc
  obtain ⟨s, op, hs, -, rfl⟩ := mem_calls (placed_read p) hc
  exact h s op hs

theorem calls_onward {s : PacketReader} (hs : Placed p s) (ops : List ReaderOp) :
    (calls t p s ops).Pairwise fun c c' => c.after ≤ c'.before := by
  induction ops generalizing s with
  | nil => exact .nil
  | cons op ops ih =>
    obtain ⟨hplaced, -⟩ := make_advances (t := t) hs op
    rcases calls_cons (t := t) (p := p) s op ops with hcalls | hcalls
    · rw [hcalls]
      exact List.pairwise_singleton _ _
    · rw [hcalls]
      refine .cons (fun c hc => ?_) (ih hplaced)
      obtain ⟨s', op', -, hle, rfl⟩ := mem_calls hplaced hc
      rw [make_before]
      exact hle

theorem precedes_of_le {a b c d : Nat} (h : b ≤ c) : Precedes (Set.Ico a b) (Set.Ico c d) :=
  fun _ hi _ hj => hi.2.trans_le (h.trans hj.1)

theorem Precedes.disjoint {A B : Set Nat} (h : Precedes A B) : Disjoint A B :=
  Set.disjoint_left.mpr fun i hA hB => (h i hA i hB).false

/-- On any packet, the invariant holds along every sequence of calls, however
they end. -/
theorem calls_orderly (t : Target) (p : Packet) (ops : List ReaderOp) :
    Orderly t p (calls t p Packet.read ops) := by
  have honward := calls_onward (t := t) (placed_read p) ops
  have hascending : (calls t p Packet.read ops).Pairwise fun c c' =>
      Precedes c.span c'.span ∧ Precedes c.fdSpan c'.fdSpan :=
    honward.imp fun h => ⟨precedes_of_le h.1, precedes_of_le h.2⟩
  constructor
  case onward => exact honward
  case placed =>
    refine forall_mem_calls (fun s op hs => ?_) ops
    rw [make_before]
    exact ⟨hs, (make_advances hs op).1⟩
  case forward =>
    refine forall_mem_calls (fun s op hs => ?_) ops
    rw [make_before]
    exact (make_advances hs op).2
  case returned => exact forall_mem_calls (fun _ _ _ _ => make_returned) ops
  case ascending => exact hascending.imp fun h _ _ _ _ => h
  case disjoint => exact hascending.imp fun h _ _ _ _ => ⟨h.1.disjoint, h.2.disjoint⟩
  case finished =>
    refine forall_mem_calls (fun s op hs hop => ?_) ops
    rw [make_op] at hop
    subst hop
    rw [make_before]
    exact make_finished hs

end Sequences

end WhaleLand
