import TablePlan.Proofs.Builtin.Safety
import TablePlan.Proofs.Eval.Contract
import TablePlan.Proofs.Eval.DataErrors
import TablePlan.Proofs.Plan.Purity

/-!
# Computations within bounds

The evaluator has errors of its own for an element, an operand or an argument that is not there. A
safe computation raises none of them, breaks off only at a limit that is exceeded, and keeps values
well formed; there is one rule for every part that evaluations are made of.
-/

namespace TablePlan

variable {σ α β : Type}

namespace EvalError

/-- Not the error of an access out of bounds: of an element of a grid, of an operand or of an
argument that is not there. -/
def InBounds (e : EvalError) : Prop :=
  match e with
  | malformedGrid | arityMismatch .. | registry (.function _ (.argumentCount _)) => False
  | e => e ≠ gridIndex

/-- The error of no access out of bounds, and a stop only where a limit is exceeded. -/
structure Sound (e : EvalError) : Prop where
  inBounds : e.InBounds
  exceeded : ∀ cause ∈ e.stop?, cause.Exceeded

/-- An error of the evaluator itself is no stop. -/
theorem InBounds.sound {e : EvalError} (h : e.InBounds) (plain : e.stop? = none) : e.Sound where
  inBounds := h
  exceeded := by simp [plain]

theorem sound_stopped {cause : Stop} (h : cause.Exceeded) : (stopped cause).Sound where
  inBounds := by rintro ⟨⟩
  exceeded := by
    rintro _ ⟨⟩
    exact h

theorem OfOperands.sound {e : EvalError} (h : e.OfOperands) : e.Sound := by
  cases e with
  | unsupported what => exact InBounds.sound h.1 rfl
  | stopped cause => exact sound_stopped h
  | registry | spec | malformedGrid | arityMismatch => exact h.elim
  | _ => exact InBounds.sound (by rintro ⟨⟩) rfl

end EvalError

/-! ### Safe registries -/

namespace Registry

variable {registry : Registry σ}

/-- Every function of the registry is pure and safe. -/
def Safe (registry : Registry σ) : Prop :=
  ∀ o ∈ registry.overloads, ∃ f : PureFunction, f.Safe ∧ o = f.toOverload

theorem standard_safe (version : String) : (standard version : Registry σ).Safe := by
  intro o inside
  rw [overloads_standard] at inside
  obtain ⟨f, listed, rfl⟩ : ∃ f ∈ Builtin.all, f.toOverload = o := by simpa using inside
  exact ⟨f, Builtin.all_safe f listed, rfl⟩

theorem sound_of_lookup {func : String} {count : Nat} {cause : RegistryError}
    (h : registry.lookup func count = .error cause) : (EvalError.registry cause).Sound := by
  obtain ⟨-, rfl⟩ | ⟨-, -, rfl⟩ := lookup_eq_error_iff.mp h
  · exact EvalError.InBounds.sound (by rintro ⟨⟩) rfl
  · exact EvalError.InBounds.sound (by rintro ⟨⟩) rfl

theorem sound_of_function {func : String} {cause : FunctionError} (h : cause.Justified) :
    (EvalError.registry (.function func cause)).Sound where
  inBounds := by
    cases cause with
    | argumentCount count => exact absurd rfl (h.supplied count)
    | _ => rintro ⟨⟩
  exceeded := h.exceeded

/-- A call by name finds as many arguments as the function reads. -/
theorem Safe.call (safe : registry.Safe) (func : String) {args : List Value}
    (each : ∀ v ∈ args, v.WellFormed) (s : σ) :
    (∀ v, (registry.call func args s).1 = .ok v → v.WellFormed)
      ∧ ∀ e, (registry.call func args s).1 = .error e → (EvalError.registry e).Sound := by
  cases found : registry.lookup func args.length with
  | error cause =>
      have fails : registry.call func args s = (.error cause, s) := by
        rw [Registry.call, found]
        rfl
      rw [fails]
      refine ⟨fun v same => (by cases same), fun e same => ?_⟩
      cases same
      exact sound_of_lookup found
  | ok o =>
      obtain ⟨f, settles, rfl⟩ := safe o (mem_of_lookup found)
      have known := settles args (accepts_of_lookup found) each
      rw [call_of_pure found]
      cases result : f.run args with
      | ok v =>
          rw [result] at known
          refine ⟨fun w same => ?_, fun e same => (by cases same)⟩
          cases same
          exact known
      | error cause =>
          rw [result] at known
          refine ⟨fun v same => (by cases same), fun e same => ?_⟩
          cases same
          exact sound_of_function known

end Registry

/-! ### Safe computations -/

namespace EvalM

open EvalError

/-- From well-formed variables the computation comes to a value with a property and to well-formed
variables again, or it fails soundly. -/
def Safe (P : α → Prop) (x : EvalM σ α) : Prop :=
  ∀ m : Machine σ, m.env.WellFormed →
    x.Ensures m (fun a m' => P a ∧ m'.env.WellFormed) Sound

namespace Safe

variable {P : α → Prop} {Q : β → Prop}

theorem pure {a : α} (h : P a) : Safe P (pure a : EvalM σ α) :=
  fun _ vars => ⟨h, vars⟩

theorem throw {e : EvalError} (h : e.Sound) : Safe P (throw e : EvalM σ α) :=
  fun _ _ => h

theorem lift {r : Except EvalError α} (ok : ∀ a, r = .ok a → P a)
    (error : ∀ e, r = .error e → e.Sound) : Safe P (liftM r : EvalM σ α) :=
  fun _ vars => (ensures_liftM r).mpr ⟨fun a result => ⟨ok a result, vars⟩, error⟩

theorem bind {x : EvalM σ α} {f : α → EvalM σ β} (first : Safe P x)
    (second : ∀ a, P a → Safe Q (f a)) : Safe Q (x >>= f) := by
  intro m vars
  rw [ensures_bind]
  exact (first m vars).mono fun a m₁ post => second a post.1 m₁ post.2

theorem ite {x y : EvalM σ α} (b : Bool) (first : Safe P x) (second : Safe P y) :
    Safe P (if b then x else y) := by
  cases b
  · exact second
  · exact first

theorem push (name : String) {v : Value} (whole : v.WellFormed) :
    Safe (fun _ => True) (push name v : EvalM σ Unit) :=
  fun _ vars => ⟨trivial, vars.push name whole⟩

/-- What every step of a traversal comes to, and how many steps there are. -/
theorem mapM {f : α → EvalM σ β} {as : List α} (each : ∀ a ∈ as, Safe Q (f a)) :
    Safe (fun bs => bs.length = as.length ∧ ∀ b ∈ bs, Q b) (as.mapM f) := by
  induction as with
  | nil => exact .pure ⟨rfl, List.forall_mem_nil _⟩
  | cons a rest ih =>
      rw [List.forall_mem_cons] at each
      rw [List.mapM_cons]
      refine each.1.bind fun b first => (ih each.2).bind fun bs later => .pure ⟨?_, ?_⟩
      · rw [List.length_cons, List.length_cons, later.1]
      · exact List.forall_mem_cons.mpr ⟨first, later.2⟩

theorem call {registry : Registry σ} (safe : registry.Safe) (func : String) {args : List Value}
    (each : ∀ v ∈ args, v.WellFormed) : Safe Value.WellFormed (call registry func args) := by
  intro m vars
  have known := safe.call func each m.state
  exact ensures_call (fun v _ result => ⟨known.1 v result, vars⟩) known.2

/-- Broadcasting finds an element of every argument at each index of their common shape, and as
many results as the shape asks for. -/
theorem broadcast {f : List Value → EvalM σ Value} {args : List Value}
    (each : ∀ v ∈ args, v.WellFormed)
    (elements : ∀ vs, vs.length = args.length → (∀ v ∈ vs, v.WellFormed) →
      Safe Value.WellFormed (f vs)) : Safe Value.WellFormed (Eval.broadcast f args) := by
  simp only [Eval.broadcast]
  split
  · exact .throw (InBounds.sound (by rintro ⟨⟩) rfl)
  · exact elements args rfl each
  · rename_i common _ joined
    split
    · exact .throw (sound_stopped (Shape.enumerate?_eq_none_iff.mp ‹_›))
    · obtain ⟨-, rfl⟩ := Shape.enumerate?_eq_some_iff.mp ‹_›
      refine (mapM (Q := Value.WellFormed) fun index inside => ?_).bind fun results known => ?_
      · obtain ⟨vs, aligned, count, whole⟩ := Value.WellFormed.exists_aligned each joined inside
        rw [aligned]
        exact elements vs count whole
      · exact .pure (.ofShape (by rw [known.1, Shape.length_indices]) known.2)

end Safe

end EvalM

end TablePlan
