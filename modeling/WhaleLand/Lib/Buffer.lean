import Mathlib.Data.List.Basic

/-!
# Buffers

A list as memory that is read and written at positions, with every access
inside its bounds. `At buf pos xs` says what stands at a position; reads give
it (`read_of_at`), and it is taken apart along `++`.
-/

namespace Buffer

variable {α : Type} {buf xs ys : List α} {pos : Nat}

/-- The `n` elements at a position, if they are all inside the buffer. -/
def read (buf : List α) (pos n : Nat) : Option (List α) :=
  if pos + n ≤ buf.length then some ((buf.drop pos).take n) else none

/-- The buffer with `xs` at a position, in place of as many elements. -/
def overwrite (buf : List α) (pos : Nat) (xs : List α) : List α :=
  buf.take pos ++ (xs ++ buf.drop (pos + xs.length))

/-- The elements `xs` stand in the buffer at a position. -/
def At (buf : List α) (pos : Nat) (xs : List α) : Prop :=
  ∃ before after, before.length = pos ∧ buf = before ++ (xs ++ after)

theorem length_overwrite (h : pos + xs.length ≤ buf.length) :
    (overwrite buf pos xs).length = buf.length := by
  unfold overwrite
  simp only [List.length_append, List.length_take, List.length_drop]
  omega

theorem read_of_at (h : At buf pos xs) : read buf pos xs.length = some xs := by
  obtain ⟨before, after, rfl, rfl⟩ := h
  unfold read
  rw [if_pos (by simp), List.drop_left, List.take_left]

theorem At.left (h : At buf pos (xs ++ ys)) : At buf pos xs := by
  obtain ⟨before, after, hpos, hbuf⟩ := h
  exact ⟨before, ys ++ after, hpos, by rw [hbuf, List.append_assoc]⟩

theorem At.right (h : At buf pos (xs ++ ys)) : At buf (pos + xs.length) ys := by
  obtain ⟨before, after, hpos, hbuf⟩ := h
  refine ⟨before ++ xs, after, ?_, ?_⟩
  · rw [List.length_append, hpos]
  · rw [hbuf, List.append_assoc, List.append_assoc]

theorem At.take (h : At buf pos xs) (n : Nat) : At buf pos (xs.take n) := by
  rw [← List.take_append_drop n xs] at h
  exact h.left

/-- Writing replaces what stands at the position. -/
theorem overwrite_append {before old after : List α} (h : old.length = xs.length) :
    overwrite (before ++ (old ++ after)) before.length xs = before ++ (xs ++ after) := by
  have hdrop : (before ++ (old ++ after)).drop (before.length + old.length) = after := by
    rw [← List.drop_drop, List.drop_left, List.drop_left]
  unfold overwrite
  rw [List.take_left, ← h, hdrop]

end Buffer
