import Mathlib.Data.List.Forall2

/-!
# Loops that collect

A loop goes over a list and looks at the kind of each item. For the items of
one kind it makes something of the item and appends it to a list; the other
items leave that list alone. One turn of the loop is described by `Collects`;
after the loop the list holds what was made of the items of that kind, in their
order (`Collects.run`), whatever stands between them.
-/

namespace Collect

universe u v

variable {σ α β : Type u} {ε : Type v}

theorem bind_eq_ok {x : Except ε α} {f : α → Except ε β} {b : β} :
    x >>= f = .ok b ↔ ∃ a, x = .ok a ∧ f a = .ok b := by
  cases x <;> simp [bind, Except.bind]

/-- One turn of a loop appends what `make` makes of an item to the list `items`
if the item is of the kind. -/
def Collects (step : σ → α → Except ε σ) (items : σ → List β) (kind : α → Bool)
    (make : α → Except ε β) : Prop :=
  ∀ (s : σ) (a : α) (s' : σ), step s a = .ok s' →
    (kind a = true ∧ ∃ b, make a = .ok b ∧ items s' = items s ++ [b]) ∨
    (kind a = false ∧ items s' = items s)

variable {step : σ → α → Except ε σ} {items : σ → List β} {kind : α → Bool}
  {make : α → Except ε β}

/-- What the whole loop has collected. -/
theorem Collects.run (h : Collects step items kind make) {l : List α} {s s' : σ}
    (hrun : l.foldlM step s = .ok s') :
    ∃ made, items s' = items s ++ made ∧
      List.Forall₂ (fun a b => make a = .ok b) (l.filter kind) made := by
  induction l generalizing s with
  | nil =>
    cases hrun
    exact ⟨[], (List.append_nil _).symm, .nil⟩
  | cons a l ih =>
    rw [List.foldlM_cons] at hrun
    obtain ⟨s₁, hstep, hrun⟩ := bind_eq_ok.mp hrun
    obtain ⟨made, hitems, hmade⟩ := ih hrun
    rcases h s a s₁ hstep with ⟨hkind, b, hb, happend⟩ | ⟨hkind, hsame⟩
    · refine ⟨b :: made, ?_, ?_⟩
      · rw [hitems, happend, List.append_assoc, List.singleton_append]
      · rw [List.filter_cons_of_pos hkind]
        exact .cons hb hmade
    · refine ⟨made, ?_, ?_⟩
      · rw [hitems, hsame]
      · rw [List.filter_cons_of_neg (by simp [hkind])]
        exact hmade

/-- A loop that begins with an empty list. -/
theorem Collects.run_nil (h : Collects step items kind make) {l : List α} {s s' : σ}
    (hnil : items s = []) (hrun : l.foldlM step s = .ok s') :
    List.Forall₂ (fun a b => make a = .ok b) (l.filter kind) (items s') := by
  obtain ⟨made, hitems, hmade⟩ := h.run hrun
  rw [hitems, hnil, List.nil_append]
  exact hmade

/-- A loop returns if all its turns do. -/
theorem exists_foldlM_ok {l : List α} (h : ∀ a ∈ l, ∀ s, ∃ s', step s a = .ok s') (s : σ) :
    ∃ s', l.foldlM step s = .ok s' := by
  induction l generalizing s with
  | nil => exact ⟨s, rfl⟩
  | cons a l ih =>
    rw [List.foldlM_cons]
    obtain ⟨s₁, hs₁⟩ := h a List.mem_cons_self s
    obtain ⟨s', hs'⟩ := ih (fun b hb => h b (List.mem_cons_of_mem a hb)) s₁
    exact ⟨s', bind_eq_ok.mpr ⟨s₁, hs₁, hs'⟩⟩

/-- In a loop that returns, each turn has returned. -/
theorem exists_ok_of_foldlM {l : List α} {s s' : σ} (h : l.foldlM step s = .ok s') {a : α}
    (ha : a ∈ l) : ∃ s₁ s₂, step s₁ a = .ok s₂ := by
  induction l generalizing s with
  | nil => cases ha
  | cons b l ih =>
    rw [List.foldlM_cons] at h
    obtain ⟨s₁, hb, hrest⟩ := bind_eq_ok.mp h
    rcases List.mem_cons.mp ha with rfl | ha
    · exact ⟨s, s₁, hb⟩
    · exact ih hrest ha

/-- So if it depends on the item alone whether a turn returns, the loop returns
in any other order too. -/
theorem exists_foldlM_ok_of_perm {l l' : List α} (hperm : l'.Perm l)
    (hturn : ∀ a s₁ s₂, step s₁ a = .ok s₂ → ∀ s, ∃ s', step s a = .ok s') {s s' : σ}
    (h : l.foldlM step s = .ok s') (t : σ) : ∃ t', l'.foldlM step t = .ok t' := by
  refine exists_foldlM_ok (fun a ha => ?_) t
  obtain ⟨s₁, s₂, hstep⟩ := exists_ok_of_foldlM h (hperm.mem_iff.mp ha)
  exact hturn a s₁ s₂ hstep

/-- Only one list can have been made of the items. -/
theorem eq_of_forall₂_ok {l : List α} {made made' : List β}
    (h : List.Forall₂ (fun a b => make a = .ok b) l made)
    (h' : List.Forall₂ (fun a b => make a = .ok b) l made') : made = made' := by
  refine List.right_unique_forall₂' ?_ h h'
  intro a b b' hb hb'
  rw [hb] at hb'
  exact Except.ok.inj hb'

/-- A loop that makes something of every item, as a map. -/
theorem eq_map_of_mapM_ok {f : α → Except ε β} {g : α → β}
    (hf : ∀ a b, f a = .ok b → b = g a) {l : List α} {made : List β}
    (h : l.mapM f = .ok made) : made = l.map g := by
  induction l generalizing made with
  | nil =>
    cases h
    rfl
  | cons a l ih =>
    rw [List.mapM_cons] at h
    obtain ⟨b, hb, h⟩ := bind_eq_ok.mp h
    obtain ⟨rest, hrest, h⟩ := bind_eq_ok.mp h
    cases h
    rw [hf a b hb, ih hrest, List.map_cons]

/-- What was made of the `k`-th item is the `k`-th of the things made. -/
theorem exists_getElem?_of_forall₂ {R : α → β → Prop} {l : List α} {made : List β}
    (h : List.Forall₂ R l made) {k : Nat} {a : α} (ha : l[k]? = some a) :
    ∃ b, made[k]? = some b ∧ R a b := by
  obtain ⟨hk, rfl⟩ := List.getElem?_eq_some_iff.mp ha
  have hk' : k < made.length := h.length_eq ▸ hk
  exact ⟨made[k], List.getElem?_eq_getElem hk', h.get hk hk'⟩

/-- Something was made of every item. -/
theorem exists_of_forall₂ {R : α → β → Prop} {l : List α} {made : List β}
    (h : List.Forall₂ R l made) {a : α} (ha : a ∈ l) : ∃ b, R a b := by
  obtain ⟨k, hk⟩ := List.getElem?_of_mem ha
  obtain ⟨b, -, hb⟩ := exists_getElem?_of_forall₂ h hk
  exact ⟨b, hb⟩

end Collect
