import Mathlib.Data.List.Basic
import TablePlan.Eval.Basic

/-!
# Contracts of computations

`x.Ensures m Q E` says what a computation started on the machine `m` comes to: a value and a machine
that satisfy `Q`, or an error that satisfies `E`. It is computed from the computation outwards, so a
contract of a sequence is a contract of its first part with the contract of the rest as
postcondition.

There is one rule for every part that computations are made of.
-/

namespace TablePlan

namespace EvalM

variable {σ α β : Type}

/-- What a computation started on `m` comes to. -/
def Ensures (x : EvalM σ α) (m : Machine σ) (Q : α → Machine σ → Prop) (E : EvalError → Prop) :
    Prop :=
  match x m with
  | (.ok a, m') => Q a m'
  | (.error e, _) => E e

variable {m : Machine σ} {Q Q' : α → Machine σ → Prop} {E E' : EvalError → Prop}

theorem Ensures.mono {x : EvalM σ α} (h : x.Ensures m Q E) (post : ∀ a m', Q a m' → Q' a m') :
    x.Ensures m Q' E := by
  unfold Ensures at *
  split at h
  · exact post _ _ h
  · exact h

theorem Ensures.mono_error {x : EvalM σ α} (h : x.Ensures m Q E) (error : ∀ e, E e → E' e) :
    x.Ensures m Q E' := by
  unfold Ensures at *
  split at h
  · exact h
  · exact error _ h

theorem Ensures.and {x : EvalM σ α} (h : x.Ensures m Q E) (h' : x.Ensures m Q' E') :
    x.Ensures m (fun a m' => Q a m' ∧ Q' a m') E := by
  unfold Ensures at *
  generalize x m = outcome at *
  rcases outcome with ⟨_ | _, _⟩
  · exact h
  · exact ⟨h, h'⟩

theorem ensures_true (x : EvalM σ α) (m : Machine σ) :
    x.Ensures m (fun _ _ => True) fun _ => True := by
  unfold Ensures
  split <;> trivial

@[simp] theorem ensures_pure (a : α) : Ensures (pure a) m Q E ↔ Q a m := Iff.rfl

@[simp] theorem ensures_bind (x : EvalM σ α) (f : α → EvalM σ β) {Q : β → Machine σ → Prop} :
    Ensures (x >>= f) m Q E ↔ x.Ensures m (fun a m' => (f a).Ensures m' Q E) E := by
  unfold Ensures
  simp only [bind, ExceptT.bind, ExceptT.mk, ExceptT.bindCont, StateT.bind]
  rcases x m with ⟨_ | _, _⟩ <;> rfl

@[simp] theorem ensures_throw (e : EvalError) : Ensures (throw e : EvalM σ α) m Q E ↔ E e := Iff.rfl

@[simp] theorem ensures_get {Q : Machine σ → Machine σ → Prop} :
    Ensures (get : EvalM σ (Machine σ)) m Q E ↔ Q m m := Iff.rfl

@[simp] theorem ensures_set {m₁ : Machine σ} {Q : PUnit → Machine σ → Prop} :
    Ensures (set m₁ : EvalM σ PUnit) m Q E ↔ Q ⟨⟩ m₁ := Iff.rfl

@[simp] theorem ensures_modify (f : Machine σ → Machine σ) {Q : PUnit → Machine σ → Prop} :
    Ensures (modify f : EvalM σ PUnit) m Q E ↔ Q ⟨⟩ (f m) := Iff.rfl

@[simp] theorem ensures_push (name : String) (v : Value) {Q : Unit → Machine σ → Prop} :
    Ensures (push name v) m Q E ↔ Q () { m with env := m.env.push name v } := Iff.rfl

/-- A result without effects is its own contract. -/
@[simp] theorem ensures_liftM (r : Except EvalError α) :
    Ensures (liftM r : EvalM σ α) m Q E ↔ (∀ a, r = .ok a → Q a m) ∧ ∀ e, r = .error e → E e := by
  cases r <;> simp [liftM, Ensures] <;> rfl

/-- A call meets what each of its outcomes meets; it leaves the variables alone. -/
theorem ensures_call {registry : Registry σ} {func : String} {args : List Value}
    {Q : Value → Machine σ → Prop}
    (ok : ∀ v state, (registry.call func args m.state).1 = .ok v → Q v { m with state })
    (error : ∀ e, (registry.call func args m.state).1 = .error e → E (.registry e)) :
    Ensures (call registry func args) m Q E := by
  simp only [call, ensures_bind, ensures_get]
  rcases h : registry.call func args m.state with ⟨_ | _, _⟩
  · exact error _ (by rw [h])
  · exact ok _ _ (by rw [h])

/-- An invariant of every step is one of a whole traversal, whose result has one element for each
that is traversed. -/
theorem ensures_mapM {I : Machine σ → Prop} {f : α → EvalM σ β} {as : List α} (start : I m)
    (step : ∀ a ∈ as, ∀ m, I m → (f a).Ensures m (fun _ m' => I m') E) :
    Ensures (as.mapM f) m (fun bs m' => bs.length = as.length ∧ I m') E := by
  induction as generalizing m with
  | nil => simpa using start
  | cons a rest ih =>
      simp only [List.mapM_cons, ensures_bind, ensures_pure]
      refine (step a (by simp) m start).mono fun b m₁ kept => ?_
      refine (ih kept fun c later => step c (by simp [later])).mono fun bs m₂ h => ?_
      simpa using h

end EvalM

end TablePlan
