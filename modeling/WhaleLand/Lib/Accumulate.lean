import Mathlib.Algebra.GroupWithZero.Nat
import WhaleLand.Lib.Collect

/-!
# Saturating accumulation

Numbers are kept under keys and added to, and none of them grows past a limit.
`Adds` says what a run, which may fail, adds to them: under each key the sum of
the shares that fall there, cut off at the limit. Runs one after the other add
the sum of what they add (`Adds.foldlM`), loops in loops included, so the order
does not matter. `Keeps` and `Agrees` are the rules for a property that every
turn keeps, and for two runs of which the second may fail less often.
-/

namespace Accumulate

universe u v

variable {σ : Type u} {κ : Type*} {ε : Type v} {α : Type*} {read : σ → κ → Nat} {M : Nat}

/-- A run adds `share` to the numbers that `read` finds, up to the limit `M`. -/
def Adds (read : σ → κ → Nat) (M : Nat) (run : σ → Except ε σ) (share : κ → Nat) : Prop :=
  ∀ s s', run s = .ok s' → ∀ k, read s' k = min M (read s k + share k)

/-- Cutting off in between makes no difference. -/
theorem min_add_min (M a b c : Nat) : min M (min M (a + b) + c) = min M (a + (b + c)) := by
  omega

theorem adds_pure (hle : ∀ s k, read s k ≤ M) : Adds (ε := ε) read M pure fun _ => 0 := by
  intro s s' h k
  cases h
  exact (Nat.min_eq_right (hle s k)).symm

theorem Adds.foldlM {turn : σ → α → Except ε σ} {share : α → κ → Nat}
    (hle : ∀ s k, read s k ≤ M) {l : List α}
    (h : ∀ a ∈ l, Adds read M (fun s => turn s a) (share a)) :
    Adds read M (fun s => l.foldlM turn s) fun k => (l.map fun a => share a k).sum := by
  induction l with
  | nil => exact adds_pure hle
  | cons a l ih =>
    intro s s' hrun k
    simp only [List.foldlM_cons] at hrun
    obtain ⟨s₁, hturn, hrun⟩ := Collect.bind_eq_ok.mp hrun
    have hfirst := h a List.mem_cons_self s s₁ hturn k
    have hrest := ih (fun b hb => h b (List.mem_cons_of_mem a hb)) s₁ s' hrun k
    show read s' k = min M (read s k + ((a :: l).map fun a => share a k).sum)
    rw [hrest, hfirst, min_add_min, List.map_cons, List.sum_cons]

/-! ## Other facts about runs -/

/-- A run keeps a property. -/
def Keeps (I : σ → Prop) (run : σ → Except ε σ) : Prop := ∀ s s', I s → run s = .ok s' → I s'

theorem Keeps.foldlM {I : σ → Prop} {turn : σ → α → Except ε σ} {l : List α}
    (h : ∀ a ∈ l, Keeps I fun s => turn s a) : Keeps I fun s => l.foldlM turn s := by
  induction l with
  | nil =>
    intro s s' hs hrun
    cases hrun
    exact hs
  | cons a l ih =>
    intro s s' hs hrun
    simp only [List.foldlM_cons] at hrun
    obtain ⟨s₁, hturn, hrun⟩ := Collect.bind_eq_ok.mp hrun
    have hs₁ := h a List.mem_cons_self s s₁ hs hturn
    exact ih (fun b hb => h b (List.mem_cons_of_mem a hb)) s₁ s' hs₁ hrun

/-- What the one computation returns, the other returns too. -/
def Agrees {γ : Type*} (x y : Except ε γ) : Prop := ∀ c, x = .ok c → y = .ok c

theorem Agrees.bind {γ δ : Type u} {x y : Except ε γ} {f g : γ → Except ε δ} (h : Agrees x y)
    (hrest : ∀ c, Agrees (f c) (g c)) : Agrees (x >>= f) (y >>= g) := by
  intro d hd
  obtain ⟨c, hc, hd⟩ := Collect.bind_eq_ok.mp hd
  exact Collect.bind_eq_ok.mpr ⟨c, h c hc, hrest c d hd⟩

theorem agrees_rfl {γ : Type*} {x : Except ε γ} : Agrees x x := fun _ h => h

theorem Agrees.foldlM {turn turn' : σ → α → Except ε σ} {l : List α}
    (h : ∀ a ∈ l, ∀ s, Agrees (turn s a) (turn' s a)) (s : σ) :
    Agrees (l.foldlM turn s) (l.foldlM turn' s) := by
  induction l generalizing s with
  | nil => exact agrees_rfl
  | cons a l ih =>
    simp only [List.foldlM_cons]
    exact (h a List.mem_cons_self s).bind fun s₁ =>
      ih (fun b hb => h b (List.mem_cons_of_mem a hb)) s₁

end Accumulate
