import WhaleLand.SharedMemory
import Mathlib.Logic.Function.Basic
import Mathlib.Logic.Relation

/-!
# Descriptors of shared memory objects

Shared memory objects in a process whose other code opens and closes
descriptors too. A `SharedMemoryObject` closes its descriptor in `close` or
when it is dropped. A descriptor is free again once it is closed, also where
`close` reports an error, and then `Drop` closes it once more: by that time it
can be somebody else's. An object closes only its own descriptor in every run
if and only if `close` reports no error (`owns_iff`); none is ever leaked
(`no_leak`).
-/

namespace WhaleLand

namespace SharedMemory

open Relation

/-! ## Objects -/

structure SharedMemoryObject where
  fileDescriptor : Int
deriving DecidableEq, Repr

namespace SharedMemoryObject

/-- `close` and `Drop` close the descriptor unless it has been set to -1. -/
def HasDescriptor (obj : SharedMemoryObject) : Prop := obj.fileDescriptor ≠ -1

instance (obj : SharedMemoryObject) : Decidable obj.HasDescriptor :=
  inferInstanceAs (Decidable (_ ≠ _))

/-- What `close` leaves to `Drop`, given what closing the descriptor has
returned. -/
def afterClose (obj : SharedMemoryObject) : Except IoError Unit → SharedMemoryObject
  | .ok () => ⟨-1⟩
  | .error _ => obj

end SharedMemoryObject

/-! ## The process -/

section Process

variable {Object : Type}

/-- Who has opened a descriptor: an object, or other code. -/
inductive Opener (Object : Type)
  | object (o : Object)
  | other
deriving DecidableEq

/-- The open descriptors and the objects that have not been dropped yet. A call
of `close` consumes its object, which is dropped when the call returns. -/
structure Process (Object : Type) where
  table : Int → Option (Opener Object)
  objects : Object → Option SharedMemoryObject
  consumed : Object → Bool

/-- No object has been created yet. -/
def Process.started (table : Int → Option (Opener Object)) : Process Object :=
  ⟨table, fun _ => none, fun _ => false⟩

variable [DecidableEq Object]

/-- The system call. An open descriptor is released whatever is returned; that
an error can be returned then is a parameter (`Reports`). -/
inductive CloseCall (Reports : Prop) (table : Int → Option (Opener Object)) (fd : Int) :
    Except IoError Unit → (Int → Option (Opener Object)) → Prop
  | closed : table fd ≠ none → CloseCall Reports table fd (.ok ()) (Function.update table fd none)
  | reported (e : IoError) : table fd ≠ none → Reports →
      CloseCall Reports table fd (.error e) (Function.update table fd none)
  | badDescriptor (e : IoError) : table fd = none → CloseCall Reports table fd (.error e) table

/-- A step of the process. A new descriptor is one that is not in use. -/
inductive ProcessStep (Reports : Prop) : Process Object → Process Object → Prop
  /-- `new_anonymous`, or `OpenOptions::open`. -/
  | create {s : Process Object} {o : Object} {fd : Int} :
      s.objects o = none → 0 ≤ fd → s.table fd = none →
      ProcessStep Reports s
        { table := Function.update s.table fd (some (.object o)),
          objects := Function.update s.objects o (some ⟨fd⟩),
          consumed := Function.update s.consumed o false }
  | close {s : Process Object} {o : Object} {obj : SharedMemoryObject}
      {result : Except IoError Unit} {table' : Int → Option (Opener Object)} :
      s.objects o = some obj → s.consumed o = false → obj.HasDescriptor →
      CloseCall Reports s.table obj.fileDescriptor result table' →
      ProcessStep Reports s
        { table := table',
          objects := Function.update s.objects o (some (obj.afterClose result)),
          consumed := Function.update s.consumed o true }
  /-- `Drop` ignores what closing the descriptor returns. -/
  | drop {s : Process Object} {o : Object} {obj : SharedMemoryObject}
      {result : Except IoError Unit} {table' : Int → Option (Opener Object)} :
      s.objects o = some obj → obj.HasDescriptor →
      CloseCall True s.table obj.fileDescriptor result table' →
      ProcessStep Reports s { s with table := table', objects := Function.update s.objects o none }
  | dropClosed {s : Process Object} {o : Object} {obj : SharedMemoryObject} :
      s.objects o = some obj → ¬ obj.HasDescriptor →
      ProcessStep Reports s { s with objects := Function.update s.objects o none }
  | otherOpens {s : Process Object} {fd : Int} :
      0 ≤ fd → s.table fd = none →
      ProcessStep Reports s { s with table := Function.update s.table fd (some .other) }
  | otherCloses {s : Process Object} {fd : Int} :
      s.table fd = some .other →
      ProcessStep Reports s { s with table := Function.update s.table fd none }

/-- Every descriptor that an object would close is its own. -/
def Owns (s : Process Object) : Prop :=
  ∀ o obj, s.objects o = some obj → obj.HasDescriptor →
    s.table obj.fileDescriptor = some (.object o)

/-- Every descriptor that an object has opened will be closed by it. -/
def NoLeak (s : Process Object) : Prop :=
  ∀ fd o, s.table fd = some (.object o) → 0 ≤ fd ∧ s.objects o = some ⟨fd⟩

end Process

/-! ## The table -/

section Table

variable {Object : Type} {Reports : Prop} {table table' : Int → Option (Opener Object)} {fd : Int}
  {result : Except IoError Unit}

/-- A descriptor is not open after it was closed, and the others are as
before. -/
theorem table_of_closeCall (h : CloseCall Reports table fd result table') :
    table' fd = none ∧ ∀ fd', fd' ≠ fd → table' fd' = table fd' := by
  cases h with
  | closed _ | reported _ _ _ =>
    exact ⟨Function.update_self .., fun fd' hne => Function.update_of_ne hne ..⟩
  | badDescriptor _ hnone => exact ⟨hnone, fun _ _ => rfl⟩

/-- An object whose descriptor is closed without an error has none left. -/
theorem afterClose_of_closeCall {obj : SharedMemoryObject} (hreports : ¬ Reports)
    (hopen : table obj.fileDescriptor ≠ none)
    (h : CloseCall Reports table obj.fileDescriptor result table') :
    ¬ (obj.afterClose result).HasDescriptor := by
  cases h with
  | closed _ => exact fun h => h rfl
  | reported _ _ hr => exact absurd hr hreports
  | badDescriptor _ hnone => exact absurd hnone hopen

end Table

/-! ## No leaks -/

section NoLeak

variable {Object : Type} [DecidableEq Object] {Reports : Prop} {s s' : Process Object}

/-- An object's descriptor is closed, and the object is changed or dropped. -/
theorem noLeak_of_closeCall (hs : NoLeak s) {o : Object} {obj : SharedMemoryObject}
    (hobj : s.objects o = some obj) {table' : Int → Option (Opener Object)}
    {result : Except IoError Unit} {Reports : Prop}
    (hcall : CloseCall Reports s.table obj.fileDescriptor result table')
    (obj' : Option SharedMemoryObject) (consumed' : Object → Bool) :
    NoLeak ⟨table', Function.update s.objects o obj', consumed'⟩ := by
  obtain ⟨hclosed, hothers⟩ := table_of_closeCall hcall
  intro fd u hfd
  have hne : fd ≠ obj.fileDescriptor := by
    rintro rfl
    cases hclosed.symm.trans hfd
  obtain ⟨hpos, hobj'⟩ := hs fd u ((hothers fd hne).symm.trans hfd)
  have huo : u ≠ o := by
    rintro rfl
    cases hobj.symm.trans hobj'
    exact hne rfl
  exact ⟨hpos, (Function.update_of_ne huo ..).trans hobj'⟩

theorem noLeak_step (hs : NoLeak s) (h : ProcessStep Reports s s') : NoLeak s' := by
  cases h with
  | @create o fd hnew hnonneg hfree =>
    intro fd' u hfd'
    simp only [Function.update_apply] at hfd' ⊢
    split at hfd'
    · next heq =>
      cases hfd'
      rw [if_pos rfl, heq]
      exact ⟨hnonneg, rfl⟩
    · obtain ⟨hpos, hobj⟩ := hs fd' u hfd'
      have hne : u ≠ o := by
        rintro rfl
        cases hnew.symm.trans hobj
      rw [if_neg hne]
      exact ⟨hpos, hobj⟩
  | close hobj _ _ hcall => exact noLeak_of_closeCall hs hobj hcall _ _
  | drop hobj _ hcall => exact noLeak_of_closeCall hs hobj hcall _ _
  | @dropClosed o obj hobj hclosed =>
    intro fd u hfd
    obtain ⟨hpos, hobj'⟩ := hs fd u hfd
    have huo : u ≠ o := by
      rintro rfl
      cases hobj.symm.trans hobj'
      exact hclosed (Int.ne_of_gt (Int.lt_of_lt_of_le (by decide) hpos))
    exact ⟨hpos, (Function.update_of_ne huo ..).trans hobj'⟩
  | otherOpens _ _ | otherCloses _ =>
    intro fd' u hfd'
    simp only [Function.update_apply] at hfd'
    split at hfd'
    · cases hfd'
    · exact hs fd' u hfd'

/-- Whatever `close` reports: a descriptor that an object has opened stays with
an object that is still to be dropped. -/
theorem no_leak {table : Int → Option (Opener Object)}
    (hstart : ∀ fd o, table fd ≠ some (.object o))
    (hrun : ReflTransGen (ProcessStep Reports) (.started table) s) : NoLeak s := by
  induction hrun with
  | refl => exact fun fd o hfd => absurd hfd (hstart fd o)
  | tail _ hlast ih => exact noLeak_step ih hlast

end NoLeak

/-! ## Ownership -/

section Ownership

variable {Object : Type} [DecidableEq Object] {Reports : Prop} {s s' : Process Object}

/-- An object's descriptor is closed, and it has none any longer. -/
theorem owns_of_closeCall (hs : Owns s) {o : Object} {obj : SharedMemoryObject}
    (hobj : s.objects o = some obj) (hfd : obj.HasDescriptor)
    {table' : Int → Option (Opener Object)} {result : Except IoError Unit} {Reports : Prop}
    (hcall : CloseCall Reports s.table obj.fileDescriptor result table')
    {obj' : Option SharedMemoryObject} (hobj' : ∀ obj₁, obj' = some obj₁ → ¬ obj₁.HasDescriptor)
    (consumed' : Object → Bool) : Owns ⟨table', Function.update s.objects o obj', consumed'⟩ := by
  obtain ⟨_, hothers⟩ := table_of_closeCall hcall
  intro u obj₁ hobj₁ hfd₁
  simp only [Function.update_apply] at hobj₁
  split at hobj₁
  · exact absurd hfd₁ (hobj' obj₁ hobj₁)
  · next huo =>
    have hmine := hs u obj₁ hobj₁ hfd₁
    have hne : obj₁.fileDescriptor ≠ obj.fileDescriptor := by
      intro heq
      rw [heq, hs o obj hobj hfd] at hmine
      cases hmine
      exact huo rfl
    exact (hothers _ hne).trans hmine

theorem owns_step (hreports : ¬ Reports) (hs : Owns s) (h : ProcessStep Reports s s') :
    Owns s' := by
  cases h with
  | @create o fd hnew hnonneg hfree =>
    intro u obj hobj hfd
    simp only [Function.update_apply] at hobj ⊢
    split at hobj
    · next heq =>
      cases hobj
      rw [if_pos rfl, heq]
    · have hmine := hs u obj hobj hfd
      have hne : obj.fileDescriptor ≠ fd := by
        rintro rfl
        cases hfree.symm.trans hmine
      rw [if_neg hne]
      exact hmine
  | @close o obj result table' hobj _ hfd hcall =>
    refine owns_of_closeCall hs hobj hfd hcall ?_ _
    rintro obj₁ ⟨rfl⟩
    have hopen : s.table obj.fileDescriptor ≠ none := by
      rw [hs o obj hobj hfd]
      exact Option.some_ne_none _
    exact afterClose_of_closeCall hreports hopen hcall
  | drop hobj hfd hcall => exact owns_of_closeCall hs hobj hfd hcall (fun _ h => by cases h) _
  | @dropClosed o obj hobj hclosed =>
    intro u obj₁ hobj₁ hfd
    simp only [Function.update_apply] at hobj₁
    split at hobj₁
    · cases hobj₁
    · exact hs u obj₁ hobj₁ hfd
  | @otherOpens fd _ hfree =>
    intro u obj hobj hfd
    have hmine := hs u obj hobj hfd
    have hne : obj.fileDescriptor ≠ fd := by
      rintro rfl
      cases hfree.symm.trans hmine
    exact (Function.update_of_ne hne ..).trans hmine
  | @otherCloses fd hother =>
    intro u obj hobj hfd
    have hmine := hs u obj hobj hfd
    have hne : obj.fileDescriptor ≠ fd := by
      rintro rfl
      cases hother.symm.trans hmine
    exact (Function.update_of_ne hne ..).trans hmine

/-- A `close` that reports an error, and another thread that opens a descriptor
before the object is dropped. -/
theorem exists_not_owns (o : Object) (hreports : Reports) :
    ∃ s : Process Object, ReflTransGen (ProcessStep Reports) (.started fun _ => none) s ∧
      ¬ Owns s := by
  let s₁ : Process Object := ⟨Function.update (fun _ => none) 3 (some (.object o)),
    Function.update (fun _ => none) o (some ⟨3⟩), Function.update (fun _ => false) o false⟩
  let s₂ : Process Object := ⟨Function.update s₁.table 3 none,
    Function.update s₁.objects o (some ⟨3⟩), Function.update s₁.consumed o true⟩
  let s₃ : Process Object := { s₂ with table := Function.update s₂.table 3 (some .other) }
  have hcreate : ProcessStep Reports (.started fun _ => none) s₁ := .create rfl (by decide) rfl
  have hobj : s₁.objects o = some ⟨3⟩ := by simp [s₁]
  have hcall : CloseCall Reports s₁.table 3 (.error (.os 5)) s₂.table :=
    .reported _ (by simp [s₁]) hreports
  have hclose : ProcessStep Reports s₁ s₂ := .close hobj (by simp [s₁]) (by decide) hcall
  have hopens : ProcessStep Reports s₂ s₃ := .otherOpens (by decide) (by simp [s₂])
  refine ⟨s₃, ((ReflTransGen.single hcreate).tail hclose).tail hopens, fun howns => ?_⟩
  have hmine := howns o ⟨3⟩ (by simp [s₃, s₂]) (by decide)
  simp [s₃] at hmine

/-- In every run of the process, the descriptors that objects would close are
their own, exactly when `close` never reports an error for a descriptor that it
has released. -/
theorem owns_iff (o : Object) (Reports : Prop) :
    (∀ (table : Int → Option (Opener Object)) (s : Process Object),
      ReflTransGen (ProcessStep Reports) (.started table) s → Owns s) ↔ ¬ Reports := by
  constructor
  · intro h hreports
    obtain ⟨s, hrun, hnot⟩ := exists_not_owns o hreports
    exact hnot (h _ s hrun)
  · intro hreports table s hrun
    induction hrun with
    | refl => exact fun _ _ hobj => by cases hobj
    | tail _ hlast ih => exact owns_step hreports ih hlast

end Ownership

end SharedMemory

end WhaleLand
