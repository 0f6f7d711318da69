import Mathlib.Init

/-!
# Programs that change a state and can stop

`Ends x s Q E`: run from the state `s`, the program `x` returns a value and a
state with `Q`, or stops with an error and a state with `E`. There is one rule
for each way of putting a program together, to be used from its first command
to its last; `ends_forM` is that of a loop over a list, with an invariant that
may count the turns that are left.
-/

namespace Program

universe u

variable {ε σ α β : Type u}

@[irreducible] def Ends (x : EStateM ε σ α) (s : σ) (Q : α → σ → Prop) (E : ε → σ → Prop) : Prop :=
  match x.run s with
  | .ok a s' => Q a s'
  | .error e s' => E e s'

/-- The program returns. -/
def returns (x : EStateM ε σ α) (s : σ) : Bool :=
  match x.run s with
  | .ok _ _ => true
  | .error _ _ => false

/-- The state at the end, however the program ends. -/
def final (x : EStateM ε σ α) (s : σ) : σ :=
  match x.run s with
  | .ok _ s' => s'
  | .error _ s' => s'

variable {x : EStateM ε σ α} {f : α → EStateM ε σ β} {s : σ} {Q Q' : α → σ → Prop}
  {R : β → σ → Prop} {E E' : ε → σ → Prop}

theorem ends_of_ok {a : α} {s' : σ} (h : x.run s = .ok a s') (hQ : Q a s') : Ends x s Q E := by
  unfold Ends
  rw [h]
  exact hQ

theorem ends_of_error {e : ε} {s' : σ} (h : x.run s = .error e s') (hE : E e s') :
    Ends x s Q E := by
  unfold Ends
  rw [h]
  exact hE

theorem Ends.ok (h : Ends x s Q E) {a : α} {s' : σ} (hrun : x.run s = .ok a s') : Q a s' := by
  unfold Ends at h
  rwa [hrun] at h

theorem Ends.error (h : Ends x s Q E) {e : ε} {s' : σ} (hrun : x.run s = .error e s') :
    E e s' := by
  unfold Ends at h
  rwa [hrun] at h

theorem run_of_returns {x : EStateM ε σ PUnit} (h : returns x s = true) :
    x.run s = .ok ⟨⟩ (final x s) := by
  unfold returns at h
  unfold final
  cases hrun : x.run s with
  | ok _ s' => rfl
  | error e s' =>
    rw [hrun] at h
    cases h

/-- What runs in the same way ends in the same way. -/
theorem ends_congr {y : EStateM ε σ α} {s' : σ} (hrun : x.run s = y.run s') (h : Ends y s' Q E) :
    Ends x s Q E := by
  unfold Ends at *
  rwa [hrun]

theorem Ends.mono (h : Ends x s Q E) (hQ : ∀ a s', Q a s' → Q' a s')
    (hE : ∀ e s', E e s' → E' e s') : Ends x s Q' E' := by
  cases hrun : x.run s with
  | ok a s' => exact ends_of_ok hrun (hQ a s' (h.ok hrun))
  | error e s' => exact ends_of_error hrun (hE e s' (h.error hrun))

/-- A program that returns exactly under some condition. -/
theorem Ends.returns_iff {P : Prop} (h : Ends x s (fun _ _ => P) fun _ _ => ¬ P) :
    returns x s = true ↔ P := by
  unfold returns
  cases hrun : x.run s with
  | ok a s' => exact iff_of_true rfl (h.ok hrun)
  | error e s' => exact iff_of_false Bool.false_ne_true (h.error hrun)

theorem ends_pure {a : α} (h : Q a s) : Ends (pure a) s Q E := ends_of_ok rfl h

theorem ends_throw {e : ε} (h : E e s) : Ends (throw e : EStateM ε σ α) s Q E :=
  ends_of_error rfl h

theorem ends_get {Q : σ → σ → Prop} (h : Q s s) : Ends (get : EStateM ε σ σ) s Q E :=
  ends_of_ok rfl h

theorem ends_modify {g : σ → σ} {Q : PUnit → σ → Prop} (h : Q ⟨⟩ (g s)) :
    Ends (modify g : EStateM ε σ PUnit) s Q E :=
  ends_of_ok rfl h

theorem ends_bind (h : Ends x s (fun a s' => Ends (f a) s' R E) E) : Ends (x >>= f) s R E := by
  cases hrun : x.run s with
  | ok a s' =>
    have hrest := h.ok hrun
    unfold Ends at *
    rw [EStateM.run_bind, hrun]
    exact hrest
  | error e s' =>
    have hrun' : (x >>= f).run s = .error e s' := by rw [EStateM.run_bind, hrun]
    exact ends_of_error hrun' (h.error hrun)

/-- One program after the other. -/
theorem returns_bind {x : EStateM ε σ PUnit} {f : PUnit → EStateM ε σ β} :
    returns (x >>= f) s = true ↔ returns x s = true ∧ returns (f ⟨⟩) (final x s) = true := by
  unfold returns final
  rw [EStateM.run_bind]
  cases hrun : x.run s with
  | ok a s' => simp
  | error e s' => simp

/-- A loop keeps what each turn keeps. The invariant may depend on the number
of turns that are left. -/
theorem ends_forM {γ : Type u} {body : γ → EStateM ε σ PUnit} {I : Nat → σ → Prop} {l : List γ}
    (hI : I l.length s)
    (hbody : ∀ a ∈ l, ∀ k s, I (k + 1) s → Ends (body a) s (fun _ => I k) E) :
    Ends (l.forM body) s (fun _ => I 0) E := by
  induction l generalizing s with
  | nil => exact ends_pure hI
  | cons a l ih =>
    show Ends (body a >>= fun _ => l.forM body) s (fun _ => I 0) E
    refine ends_bind ((hbody a List.mem_cons_self l.length s hI).mono ?_ fun _ _ h => h)
    exact fun _ s' hs' => ih hs' fun b hb => hbody b (List.mem_cons_of_mem a hb)

end Program
