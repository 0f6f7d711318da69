import WhaleLand.Basic
import Mathlib.Data.List.Nodup
import Mathlib.Logic.Function.Basic
import Mathlib.Logic.Relation

/-!
# Fresh object ids

`get_and_increment_next_object_id`, called by any number of tasks. The counter
wraps around after 2³² increments. The null id is skipped then, the id of the
display is not, and from there on the ids repeat. So the ids are unique for as
long as at most 2³² - 2 of them have been returned (`unique_iff`).
-/

namespace WhaleLand.ObjectIds

open Relation

/-! ## The calls -/

/-- The counter, the tasks that are in a call, and the ids that the calls have
returned, in the order of the counter. -/
structure State (Task : Type) where
  nextObjectId : UInt32
  calling : Task → Bool
  returned : List ObjectId

/-- The counter of a fresh connection: 0 is null, 1 is always the display. -/
def State.init (Task : Type) : State Task := ⟨2, fun _ => false, []⟩

section Calls

variable {Task : Type} [DecidableEq Task]

/-- The steps of a task. `fetch_add` wraps around; the loop is left with the
first value that is not zero. -/
inductive Step : State Task → State Task → Prop
  | call {s : State Task} {t : Task} :
      s.calling t = false → Step s { s with calling := Function.update s.calling t true }
  | retry {s : State Task} {t : Task} :
      s.calling t = true → ObjectId.new s.nextObjectId = none →
      Step s { s with nextObjectId := s.nextObjectId + 1 }
  | issue {s : State Task} {t : Task} {oid : ObjectId} :
      s.calling t = true → ObjectId.new s.nextObjectId = some oid →
      Step s { nextObjectId := s.nextObjectId + 1
               calling := Function.update s.calling t false
               returned := s.returned ++ [oid] }

end Calls

/-- No call has returned the id of the display, and no two the same id. -/
def Unique {Task : Type} (s : State Task) : Prop :=
  ObjectId.display ∉ s.returned ∧ s.returned.Nodup

/-! ## The ids by the number of increments -/

/-- The `i`-th value of the counter. -/
def counter (i : Nat) : UInt32 := UInt32.ofNat (2 + i)

/-- The ids among the first `n` values. -/
def issued (n : Nat) : List ObjectId := (List.range n).filterMap fun i => ObjectId.new (counter i)

theorem counter_toNat (i : Nat) : (counter i).toNat = (2 + i) % 2 ^ 32 := UInt32.toNat_ofNat ..

theorem counter_succ (i : Nat) : counter i + 1 = counter (i + 1) := by
  apply UInt32.toNat_inj.mp
  rw [UInt32.toNat_add, counter_toNat, counter_toNat, UInt32.toNat_one]
  omega

theorem issued_succ (n : Nat) : issued (n + 1) = issued n ++ (ObjectId.new (counter n)).toList := by
  rw [issued, List.range_succ, List.filterMap_append, issued]
  cases h : ObjectId.new (counter n) <;> simp [h]

theorem mem_issued {n : Nat} {oid : ObjectId} :
    oid ∈ issued n ↔ ∃ i < n, counter i = oid.val := by
  simp only [issued, List.mem_filterMap, List.mem_range, ObjectId.new_eq_some]

/-- The ids do not repeat before the counter does. -/
theorem nodup_issued {n : Nat} (hn : n ≤ 2 ^ 32) : (issued n).Nodup := by
  rw [issued, List.Nodup, List.pairwise_filterMap]
  refine List.pairwise_lt_range.imp_of_mem fun {i j} hi hj hlt oid hoid oid' hoid' heq => ?_
  rw [List.mem_range] at hi hj
  have hval : (counter i).toNat = (counter j).toNat := by
    rw [ObjectId.new_eq_some.mp hoid, ObjectId.new_eq_some.mp hoid', heq]
  rw [counter_toNat, counter_toNat] at hval
  omega

/-- The display's id is the last one of the counter's round. -/
theorem display_mem_issued {n : Nat} : ObjectId.display ∈ issued n ↔ 2 ^ 32 ≤ n := by
  rw [mem_issued]
  constructor
  · rintro ⟨i, hi, hval⟩
    have hi' : (2 + i) % 2 ^ 32 = 1 := by
      rw [← counter_toNat, hval]
      rfl
    omega
  · intro hn
    refine ⟨2 ^ 32 - 1, by omega, ?_⟩
    apply UInt32.toNat_inj.mp
    rw [counter_toNat]
    rfl

/-- Before the counter reaches 0, every value is an id. -/
theorem length_issued_of_le {n : Nat} (hn : n ≤ 2 ^ 32 - 2) : (issued n).length = n := by
  induction n with
  | zero => rfl
  | succ n ih =>
    have hid : ObjectId.new (counter n) ≠ none := by
      rw [ne_eq, ObjectId.new_eq_none, ← UInt32.toNat_inj, counter_toNat, UInt32.toNat_zero]
      omega
    obtain ⟨oid, hoid⟩ := Option.ne_none_iff_exists'.mp hid
    rw [issued_succ, List.length_append, ih (by omega), hoid]
    rfl

theorem length_issued_mono {n m : Nat} (h : n ≤ m) : (issued n).length ≤ (issued m).length := by
  induction h with
  | refl => exact le_rfl
  | step _ ih =>
    rw [issued_succ, List.length_append]
    omega

/-- The counter's round has 2³² - 2 ids, then 0, then the display's. -/
theorem length_issued_le_iff {n : Nat} : (issued n).length ≤ 2 ^ 32 - 2 ↔ n < 2 ^ 32 := by
  have hround : (issued (2 ^ 32 - 2)).length = 2 ^ 32 - 2 := length_issued_of_le le_rfl
  have hnull : (issued (2 ^ 32 - 2 + 1)).length = 2 ^ 32 - 2 := by
    rw [issued_succ, List.length_append, hround]
    rfl
  constructor
  · intro hle
    by_contra hn
    have hdisplay : (issued (2 ^ 32 - 2 + 1 + 1)).length = 2 ^ 32 - 1 := by
      rw [issued_succ, List.length_append, hnull]
      rfl
    have hmono := length_issued_mono (n := 2 ^ 32 - 2 + 1 + 1) (m := n) (by omega)
    omega
  · intro hn
    have hmono := length_issued_mono (n := n) (m := 2 ^ 32 - 2 + 1) (by omega)
    omega

/-! ## Runs -/

section Runs

variable {Task : Type} [DecidableEq Task]

/-- After `n` increments, whoever made them, the first `n` values have been
used. -/
def Counted (n : Nat) (s : State Task) : Prop :=
  s.nextObjectId = counter n ∧ s.returned = issued n

omit [DecidableEq Task] in
theorem counted_retry {n : Nat} {s : State Task} (hs : Counted n s)
    (hnone : ObjectId.new s.nextObjectId = none) :
    Counted (n + 1) { s with nextObjectId := s.nextObjectId + 1 } := by
  obtain ⟨hnext, hreturned⟩ := hs
  rw [hnext] at hnone
  refine ⟨(congrArg (· + 1) hnext).trans (counter_succ n), ?_⟩
  rw [issued_succ, hnone, Option.toList_none, List.append_nil]
  exact hreturned

theorem counted_issue {n : Nat} {s : State Task} {oid : ObjectId} (hs : Counted n s)
    (hsome : ObjectId.new s.nextObjectId = some oid) (t : Task) :
    Counted (n + 1) ⟨s.nextObjectId + 1, Function.update s.calling t false,
      s.returned ++ [oid]⟩ := by
  obtain ⟨hnext, hreturned⟩ := hs
  rw [hnext] at hsome
  refine ⟨(congrArg (· + 1) hnext).trans (counter_succ n), ?_⟩
  rw [issued_succ, hsome, Option.toList_some]
  exact congrArg (· ++ _) hreturned

theorem counted_step {n : Nat} {s s' : State Task} (hs : Counted n s) (h : Step s s') :
    ∃ m, Counted m s' := by
  cases h with
  | call _ => exact ⟨n, hs⟩
  | retry _ hnone => exact ⟨n + 1, counted_retry hs hnone⟩
  | issue _ hsome => exact ⟨n + 1, counted_issue hs hsome _⟩

theorem counted_run {s : State Task} (h : ReflTransGen Step (.init Task) s) :
    ∃ n, Counted n s := by
  induction h with
  | refl => exact ⟨0, rfl, rfl⟩
  | tail _ hlast ih =>
    obtain ⟨n, hn⟩ := ih
    exact counted_step hn hlast

/-- In every run, the returned ids are unique exactly as long as there are at
most 2³² - 2 of them. -/
theorem unique_iff {s : State Task} (h : ReflTransGen Step (.init Task) s) :
    Unique s ↔ s.returned.length ≤ 2 ^ 32 - 2 := by
  obtain ⟨n, _, hreturned⟩ := counted_run h
  rw [Unique, hreturned, length_issued_le_iff, display_mem_issued, Nat.not_le]
  exact and_iff_left_of_imp fun hn => nodup_issued hn.le

/-- A task that calls over and over again makes any number of increments. -/
theorem exists_run (t : Task) (n : Nat) :
    ∃ s, ReflTransGen Step (.init Task) s ∧ Counted n s ∧ s.calling t = true := by
  induction n with
  | zero => exact ⟨_, .single (.call (t := t) rfl), ⟨rfl, rfl⟩, Function.update_self ..⟩
  | succ n ih =>
    obtain ⟨s, hrun, hn, hcalling⟩ := ih
    cases hnext : ObjectId.new s.nextObjectId with
    | none => exact ⟨_, hrun.tail (.retry hcalling hnext), counted_retry hn hnext, hcalling⟩
    | some oid =>
      have hissue := hrun.tail (.issue hcalling hnext)
      refine ⟨_, hissue.tail (.call (Function.update_self ..)), counted_issue hn hnext t, ?_⟩
      exact Function.update_self ..

end Runs

/-- Two tasks call at the same time, and one of them once more. -/
theorem unique_iff_three : ∃ s : State Bool,
    s.returned = [.ofNat 2, .ofNat 3, .ofNat 4] ∧ Unique s := by
  have hrun : ReflTransGen Step (State.init Bool) _ := .single (.call (t := true) rfl)
  have hrun := hrun.tail (.call (t := false) rfl)
  have hrun := hrun.tail (.issue (t := false) rfl (rfl : ObjectId.new 2 = some (.ofNat 2)))
  have hrun := hrun.tail (.issue (t := true) rfl (rfl : ObjectId.new 3 = some (.ofNat 3)))
  have hrun := hrun.tail (.call (t := false) rfl)
  have hrun := hrun.tail (.issue (t := false) rfl (rfl : ObjectId.new 4 = some (.ofNat 4)))
  exact ⟨_, rfl, (unique_iff hrun).mpr (by decide)⟩

/-- After 2³² increments, the display's id has been returned. -/
theorem display_issued :
    ¬ ∀ (Task : Type) [DecidableEq Task] (s : State Task),
      ReflTransGen Step (.init Task) s → Unique s := by
  intro h
  obtain ⟨s, hrun, ⟨_, hreturned⟩, _⟩ := exists_run () (2 ^ 32)
  have hunique := h Unit s hrun
  refine hunique.1 ?_
  rw [hreturned]
  exact display_mem_issued.mpr le_rfl

end WhaleLand.ObjectIds
