import WhaleLand.Lib.Scope

/-!
# Names that functions mention

The names in a function of a language with shadowing, each with what it is
meant to stand for. A `let` hides what had its name before. Some names are
those of items that no variable can hide: a pattern of such a name is not a
variable. `Hygienic` says that every name stands for what it is meant for;
`resolved_append_iff` and `resolved_flatMap_iff` take it apart along the body.
-/

namespace Mentions

/-- A name in the body of a function. -/
inductive Mention (ι ρ : Type*)
  | bind (name : ι) (meant : ρ)
  | use (name : ι) (meant : ρ)
  | field (name : ι) (meant : ρ)
deriving DecidableEq, Repr

/-- A function with the fields that its body can name. -/
structure Function (ι ρ : Type*) where
  params : List (ι × ρ)
  fields : List (ι × ρ)
  body : List (Mention ι ρ)
deriving Repr

variable {ι ρ α : Type*} [BEq ι] [LawfulBEq ι]

/-- Every name of the body stands for what is meant, in this scope. -/
def Resolved (items : List ι) (fields : List (ι × ρ)) : List (ι × ρ) → List (Mention ι ρ) → Prop
  | _, [] => True
  | scope, .bind name meant :: body =>
    name ∉ items ∧ Resolved items fields ((name, meant) :: scope) body
  | scope, .use name meant :: body =>
    scope.lookup name = some meant ∧ Resolved items fields scope body
  | scope, .field name meant :: body =>
    fields.lookup name = some meant ∧ Resolved items fields scope body

/-- The scope after the body. -/
def scopeAfter : List (ι × ρ) → List (Mention ι ρ) → List (ι × ρ)
  | scope, [] => scope
  | scope, .bind name meant :: body => scopeAfter ((name, meant) :: scope) body
  | scope, .use _ _ :: body | scope, .field _ _ :: body => scopeAfter scope body

/-- The parameters are distinct variables, and the names of the body resolve. -/
structure Hygienic (items : List ι) (f : Function ι ρ) : Prop where
  distinct : (f.params.map Prod.fst).Nodup
  bindable : ∀ name ∈ f.params.map Prod.fst, name ∉ items
  resolved : Resolved items f.fields f.params f.body

variable {items : List ι} {fields scope : List (ι × ρ)} {name : ι}

omit [LawfulBEq ι] in
theorem resolved_append_iff {a b : List (Mention ι ρ)} :
    Resolved items fields scope (a ++ b) ↔
      Resolved items fields scope a ∧ Resolved items fields (scopeAfter scope a) b := by
  induction a generalizing scope with
  | nil => exact (iff_of_eq (true_and _)).symm
  | cons mention a ih =>
    cases mention with
    | bind name meant => exact (and_congr_right fun _ => ih).trans and_assoc.symm
    | use name meant => exact (and_congr_right fun _ => ih).trans and_assoc.symm
    | field name meant => exact (and_congr_right fun _ => ih).trans and_assoc.symm

omit [BEq ι] [LawfulBEq ι] in
theorem scopeAfter_append {a b : List (Mention ι ρ)} :
    scopeAfter scope (a ++ b) = scopeAfter (scopeAfter scope a) b := by
  induction a generalizing scope with
  | nil => rfl
  | cons mention a ih => cases mention <;> exact ih

section Blocks

variable {block : α → List (Mention ι ρ)}

omit [BEq ι] [LawfulBEq ι] in
/-- Blocks without variables of their own leave the scope as it is. -/
theorem scopeAfter_flatMap (h : ∀ a, scopeAfter scope (block a) = scope) (l : List α) :
    scopeAfter scope (l.flatMap block) = scope := by
  induction l with
  | nil => rfl
  | cons a l ih => rw [List.flatMap_cons, scopeAfter_append, h, ih]

omit [LawfulBEq ι] in
theorem resolved_flatMap_iff (h : ∀ a, scopeAfter scope (block a) = scope) (l : List α) :
    Resolved items fields scope (l.flatMap block) ↔
      ∀ a ∈ l, Resolved items fields scope (block a) := by
  induction l with
  | nil => exact iff_of_true trivial nofun
  | cons a l ih => rw [List.flatMap_cons, resolved_append_iff, h, ih, List.forall_mem_cons]

end Blocks

/-- Names that are bound one by one are found with what they are meant for. -/
theorem lookup_map_append_of_mem {names : List ι} (meant : ι → ρ) (h : name ∈ names) :
    ((names.map fun n => (n, meant n)) ++ scope).lookup name = some (meant name) := by
  induction names with
  | nil => cases h
  | cons other names ih =>
    rw [List.map_cons, List.cons_append]
    by_cases heq : name = other
    · subst heq
      exact List.lookup_cons_self
    · rw [Scope.lookup_cons_of_ne heq]
      exact ih (List.mem_of_ne_of_mem heq h)

theorem lookup_map_append_of_notMem {names : List ι} (meant : ι → ρ) (h : name ∉ names) :
    ((names.map fun n => (n, meant n)) ++ scope).lookup name = scope.lookup name := by
  have hnone : (names.map fun n => (n, meant n)).lookup name = none :=
    Scope.lookup_eq_none (by simpa using h)
  rw [List.lookup_append, hnone, Option.none_or]

end Mentions
