import Mathlib.Data.Set.Basic

/-!
# Deadlocks

A deadlock is a set of tasks that only wait for each other. It cannot arise
where every task waits for locks above the ones that it holds
(`not_deadlocked_of_ordered`), and two tasks that wait for each other's lock are
one (`deadlocked_of_cycle`). Nothing is said about how locks are granted.
-/

namespace Deadlock

/-- Which locks the tasks wait for, and which they hold. -/
structure WaitGraph (Task Lock : Type) where
  waits : Task → Lock → Prop
  holds : Task → Lock → Prop

namespace WaitGraph

variable {Task Lock : Type} {G : WaitGraph Task Lock}

/-- Some tasks each wait for a lock that one of them holds. -/
def Deadlocked (G : WaitGraph Task Lock) : Prop :=
  ∃ D : Set Task, D.Nonempty ∧ ∀ t ∈ D, ∃ l, G.waits t l ∧ ∃ u ∈ D, G.holds u l

/-- Tasks wait for locks that rank above the ones they hold. -/
def Ordered (G : WaitGraph Task Lock) (rank : Lock → Nat) : Prop :=
  ∀ t l l', G.holds t l → G.waits t l' → rank l < rank l'

theorem not_deadlocked_of_ordered {rank : Lock → Nat} {bound : Nat}
    (hbound : ∀ l, rank l ≤ bound) (h : G.Ordered rank) : ¬ G.Deadlocked := by
  rintro ⟨D, ⟨t, ht⟩, hD⟩
  -- from holder to holder, the ranks of the held locks grow without bound
  have hchain : ∀ n, ∃ l, n ≤ rank l ∧ ∃ u ∈ D, G.holds u l := by
    intro n
    induction n with
    | zero =>
      obtain ⟨l, _, hheld⟩ := hD t ht
      exact ⟨l, Nat.zero_le _, hheld⟩
    | succ n ih =>
      obtain ⟨l, hle, u, hu, hholds⟩ := ih
      obtain ⟨m, hwaits, hheld⟩ := hD u hu
      exact ⟨m, Nat.lt_of_le_of_lt hle (h u l m hholds hwaits), hheld⟩
  obtain ⟨l, hle, _⟩ := hchain (bound + 1)
  exact absurd (hbound l) (Nat.not_le.mpr hle)

theorem deadlocked_of_cycle {t u : Task} {l m : Lock} (ht : G.waits t l) (hu : G.holds u l)
    (hu' : G.waits u m) (ht' : G.holds t m) : G.Deadlocked := by
  refine ⟨{t, u}, ⟨t, .inl rfl⟩, ?_⟩
  rintro v (rfl | rfl)
  · exact ⟨l, ht, u, .inr rfl, hu⟩
  · exact ⟨m, hu', t, .inl rfl, ht'⟩

end WaitGraph

end Deadlock
