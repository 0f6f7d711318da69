import Mathlib.Logic.Function.Basic
import Mathlib.Data.List.Induction
import Mathlib.Data.List.Nodup

/-!
# Pending updates over a live map

A map takes updates in two stages: an update is first kept as pending, at most
one for each key, and later all pending ones are drained into a live map.
Nothing is lost by this: the pending updates laid over the live map are what a
plain map would be that takes every update at once. Recording an update is one
assignment to it (`overlay_record`), and draining, in whatever order, leaves it
as it is (`drain_eq_overlay`).
-/

namespace Overlay

variable {K Op V : Type*} [DecidableEq K] (value : Op → Option V)

/-- A plain map after one update: `value op` is what the update leaves at its
key. -/
def assign (map : K → Option V) (k : K) (op : Op) : K → Option V :=
  Function.update map k (value op)

/-- The plain map that takes every update of a log, in order. -/
def replay (log : List (K × Op)) : K → Option V :=
  log.foldl (fun map entry => assign value map entry.1 entry.2) fun _ => none

/-- Pending updates laid over a live map. -/
def overlay (pending : K → Option Op) (live : K → Option V) (k : K) : Option V :=
  match pending k with
  | some op => value op
  | none => live k

/-- A newly pending update overrides an older one of its key. -/
theorem overlay_record (pending : K → Option Op) (live : K → Option V) (k : K) (op : Op) :
    overlay value (Function.update pending k (some op)) live =
      assign value (overlay value pending live) k op := by
  funext j
  by_cases hj : j = k
  · subst hj
    simp only [overlay, assign, Function.update_self]
  · simp only [overlay, assign, Function.update_of_ne hj]

theorem replay_concat (log : List (K × Op)) (k : K) (op : Op) :
    replay value (log ++ [(k, op)]) = assign value (replay value log) k op := by
  rw [replay, List.foldl_append]
  rfl

/-- Draining the pending updates, each once and in any order. -/
theorem drain_eq_overlay {entries : List (K × Op)} {pending : K → Option Op}
    (live : K → Option V) (hnodup : (entries.map Prod.fst).Nodup)
    (hentries : ∀ k op, (k, op) ∈ entries ↔ pending k = some op) :
    entries.foldl (fun map entry => assign value map entry.1 entry.2) live =
      overlay value pending live := by
  induction entries generalizing pending live with
  | nil =>
    have hnone : pending = fun _ => none :=
      funext fun k => Option.eq_none_iff_forall_ne_some.mpr fun op h =>
        List.not_mem_nil ((hentries k op).mpr h)
    rw [hnone]
    rfl
  | cons entry entries ih =>
    obtain ⟨k, op⟩ := entry
    obtain ⟨hnew, hnodup⟩ := List.nodup_cons.mp hnodup
    have hk : pending k = some op := (hentries k op).mp List.mem_cons_self
    -- what is left to drain is pending at the other keys
    have hrest : ∀ j o, (j, o) ∈ entries ↔ Function.update pending k none j = some o := by
      intro j o
      by_cases hj : j = k
      · subst hj
        rw [Function.update_self]
        exact iff_of_false (fun hmem => hnew (List.mem_map.mpr ⟨_, hmem, rfl⟩)) (by simp)
      · rw [Function.update_of_ne hj, ← hentries j o, List.mem_cons, Prod.mk.injEq]
        simp [hj]
    rw [List.foldl_cons, ih (assign value live k op) hnodup hrest]
    funext j
    by_cases hj : j = k
    · subst hj
      simp only [overlay, assign, Function.update_self, hk]
    · simp only [overlay, assign, Function.update_of_ne hj]

/-- What a key holds is decided by its last update. -/
theorem replay_of_last {before after : List (K × Op)} {k : K} {op : Op}
    (hlast : ∀ entry ∈ after, entry.1 ≠ k) :
    replay value (before ++ (k, op) :: after) k = value op := by
  induction after using List.reverseRecOn with
  | nil => rw [replay_concat, assign, Function.update_self]
  | append_singleton after entry ih =>
    obtain ⟨j, o⟩ := entry
    have hj : k ≠ j := (hlast (j, o) (by simp)).symm
    rw [← List.cons_append, ← List.append_assoc, replay_concat, assign, Function.update_of_ne hj]
    exact ih fun entry hmem => hlast entry (List.mem_append_left _ hmem)

end Overlay
