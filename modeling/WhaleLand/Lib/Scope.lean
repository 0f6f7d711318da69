import Mathlib.Data.List.Forall2
import Mathlib.Data.List.Nodup

/-!
# Scopes

The names in scope are an association list, the binding made last in front, so
that it hides earlier ones of the same name. `bindAll` binds names one after
the other. Under distinct names each is found with its own value
(`lookup_bindAll`), and every other name is found as before
(`lookup_bindAll_of_notMem`). Declarations with distinct keys are found by
their keys in the same way (`find?_key_of_mem`).
-/

namespace Scope

variable {ι β : Type*} [BEq ι] [LawfulBEq ι] {scope : List (ι × β)} {name : ι} {v : β}

theorem lookup_cons_of_ne {other : ι} (h : name ≠ other) :
    ((other, v) :: scope).lookup name = scope.lookup name := by
  rw [List.lookup_cons, beq_false_of_ne h]

/-- The value of a name that is bound once. -/
theorem lookup_of_mem (hnodup : (scope.map Prod.fst).Nodup) (hmem : (name, v) ∈ scope) :
    scope.lookup name = some v := by
  induction scope with
  | nil => cases hmem
  | cons binding scope ih =>
    obtain ⟨hnew, hnodup⟩ := List.nodup_cons.mp hnodup
    rcases List.mem_cons.mp hmem with rfl | hmem
    · simp
    · have hne : name ≠ binding.1 := by
        rintro rfl
        exact hnew (List.mem_map.mpr ⟨(binding.1, v), hmem, rfl⟩)
      rw [lookup_cons_of_ne hne]
      exact ih hnodup hmem

/-- A declaration is found by its key if no other one has that key. -/
theorem find?_key_of_mem {δ : Type*} {key : δ → ι} {decls : List δ} {decl : δ}
    (hnodup : (decls.map key).Nodup) (hmem : decl ∈ decls) :
    decls.find? (fun other => key other == key decl) = some decl := by
  cases hfind : decls.find? (fun other => key other == key decl) with
  | none =>
    have hne := List.find?_eq_none.mp hfind decl hmem
    exact absurd (beq_self_eq_true (key decl)) hne
  | some found =>
    have hkey : key found = key decl := by simpa using List.find?_some hfind
    rw [List.inj_on_of_nodup_map hnodup (List.mem_of_find?_eq_some hfind) hmem hkey]

theorem lookup_eq_none (h : name ∉ scope.map Prod.fst) : scope.lookup name = none := by
  rw [List.lookup_eq_none_iff]
  intro binding hmem
  have hne : name ≠ binding.1 := by
    rintro rfl
    exact h (List.mem_map_of_mem hmem)
  simpa using hne

/-- The scope with the names bound to the values, one after the other. -/
def bindAll (names : List ι) (values : List β) (scope : List (ι × β)) : List (ι × β) :=
  (names.zip values).reverse ++ scope

section BindAll

variable {names : List ι} {values : List β}

theorem lookup_bindAll_of_notMem (h : name ∉ names) :
    (bindAll names values scope).lookup name = scope.lookup name := by
  have hnone : (names.zip values).reverse.lookup name = none := by
    refine lookup_eq_none fun hmem => h ?_
    rw [List.map_reverse, List.mem_reverse] at hmem
    obtain ⟨⟨_, v⟩, hpair, rfl⟩ := List.mem_map.mp hmem
    exact (List.of_mem_zip hpair).1
  rw [bindAll, List.lookup_append, hnone, Option.none_or]

theorem lookup_bindAll (scope : List (ι × β)) (hnodup : names.Nodup)
    (hlen : names.length = values.length) :
    List.Forall₂ (fun name v => (bindAll names values scope).lookup name = some v)
      names values := by
  refine List.forall₂_iff_zip.mpr ⟨hlen, fun {name v} hmem => ?_⟩
  have hbound : ((names.zip values).reverse.map Prod.fst).Nodup := by
    rw [List.map_reverse, List.map_fst_zip (Nat.le_of_eq hlen)]
    exact List.nodup_reverse.mpr hnodup
  rw [bindAll, List.lookup_append, lookup_of_mem hbound (List.mem_reverse.mpr hmem),
    Option.some_or]

omit [BEq ι] [LawfulBEq ι] in
@[simp] theorem bindAll_cons :
    bindAll (name :: names) (v :: values) scope = bindAll names values ((name, v) :: scope) := by
  simp [bindAll]

end BindAll

end Scope
