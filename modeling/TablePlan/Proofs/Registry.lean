import Mathlib.Logic.Basic
import TablePlan.Builtin.Standard

/-!
# Definitions in the order of their registration

A registry holds the definitions that were registered, the newest first. A look-up finds the latest
one that has the name and accepts the number of arguments, and otherwise it tells whether there is
none of the name or none for the number.
-/

namespace TablePlan

variable {σ : Type}

namespace Overload

/-- The definition has the name and accepts the number of arguments. -/
def Serves (o : Overload σ) (name : String) (count : Nat) : Prop :=
  o.signature.name = name ∧ o.signature.arity.accepts count = true

/-- Of the definitions that serve, this one is the latest of a history. -/
def IsLatest (o : Overload σ) (history : List (Overload σ)) (name : String) (count : Nat) : Prop :=
  ∃ earlier later, history = earlier ++ o :: later ∧ o.Serves name count
    ∧ ∀ p ∈ later, ¬ p.Serves name count

end Overload

namespace Registry

variable {r : Registry σ} {o : Overload σ} {name : String} {count : Nat}

/-- Register definitions one after another. -/
def registerAll (r : Registry σ) (history : List (Overload σ)) : Registry σ :=
  history.foldl register r

/-- The arities of a name among registered definitions, the newest first. -/
def aritiesOf (history : List (Overload σ)) (name : String) : List Arity :=
  (history.reverse.filter fun o => o.signature.name == name).map fun o => o.signature.arity

/-! ### What a look-up gives -/

theorem lookup_eq_ok_iff : r.lookup name count = .ok o
    ↔ (r.overloadsOf name).find? (fun o => o.signature.arity.accepts count) = some o := by
  unfold lookup
  split
  · rename_i none
    simp [none]
  · split
    · rename_i found
      simp [found]
    · rename_i found
      simp [found]

theorem lookup_eq_error_iff {e : RegistryError} : r.lookup name count = .error e
    ↔ (r.overloadsOf name = [] ∧ e = .functionNotFound name)
      ∨ (r.overloadsOf name ≠ [] ∧ (∀ o ∈ r.overloadsOf name, o.signature.arity.accepts count = false)
        ∧ e = .arityMismatch name
          (Text.joinWith " | " ((r.overloadsOf name).map fun o => o.signature.arity.text)) count) := by
  unfold lookup
  split
  · rename_i none
    constructor
    · rintro ⟨⟩
      exact .inl ⟨none, rfl⟩
    · rintro (⟨-, rfl⟩ | ⟨some, -⟩)
      · rfl
      · exact absurd none some
  · rename_i some
    split
    · rename_i o found
      refine ⟨nofun, ?_⟩
      rintro (⟨none, -⟩ | ⟨-, refused, -⟩)
      · exact absurd none some
      · have accepted := List.find?_some found
        rw [refused o (List.mem_of_find?_eq_some found)] at accepted
        cases accepted
    · rename_i refused
      constructor
      · rintro ⟨⟩
        exact .inr ⟨some, by simpa using List.find?_eq_none.mp refused, rfl⟩
      · rintro (⟨none, -⟩ | ⟨-, -, rfl⟩)
        · exact absurd none some
        · rfl

theorem mem_of_lookup (found : r.lookup name count = .ok o) : o ∈ r.overloads :=
  (List.mem_filter.mp (List.mem_of_find?_eq_some (lookup_eq_ok_iff.mp found))).1

theorem accepts_of_lookup (found : r.lookup name count = .ok o) :
    o.signature.arity.accepts count = true := by
  have accepted := List.find?_some (lookup_eq_ok_iff.mp found)
  exact accepted

/-- A call of a pure function runs it on the arguments. -/
theorem call_of_pure {args : List Value} {f : PureFunction}
    (found : r.lookup name args.length = .ok f.toOverload) (s : σ) :
    r.call name args s = ((f.run args).mapError (.function name), s) := by
  have ran : f.toOverload.run args = (pure (f.run args) : StateM σ _) := rfl
  simp only [Registry.call, found, ran, pure_bind]
  cases f.run args <;> rfl

/-! ### One registration -/

theorem overloadsOf_register_self (named : o.signature.name = name) :
    (r.register o).overloadsOf name = o :: r.overloadsOf name := by
  simp [register, overloadsOf, named]

theorem overloadsOf_register_other (other : o.signature.name ≠ name) :
    (r.register o).overloadsOf name = r.overloadsOf name := by
  simp [register, overloadsOf, other]

/-- A definition of another name makes no difference. -/
theorem lookup_register_other (other : o.signature.name ≠ name) :
    (r.register o).lookup name count = r.lookup name count := by
  unfold lookup
  rw [overloadsOf_register_other other]

/-- A definition that does not accept the number of arguments is passed over. -/
theorem lookup_register_refusing (refusing : o.signature.arity.accepts count = false)
    {p : Overload σ} : (r.register o).lookup name count = .ok p ↔ r.lookup name count = .ok p := by
  by_cases named : o.signature.name = name
  · rw [lookup_eq_ok_iff, lookup_eq_ok_iff, overloadsOf_register_self named,
      List.find?_cons_of_neg (by simp [refusing])]
  · rw [lookup_register_other named]

/-! ### A history of registrations -/

theorem overloads_registerAll (history : List (Overload σ)) (r : Registry σ) :
    (r.registerAll history).overloads = history.reverse ++ r.overloads := by
  induction history generalizing r with
  | nil => rfl
  | cons o rest ih =>
      rw [List.reverse_cons, List.append_assoc]
      exact ih (r.register o)

theorem overloadsOf_history (version : String) (history : List (Overload σ)) (name : String) :
    ((empty version).registerAll history).overloadsOf name
      = history.reverse.filter fun o => o.signature.name == name := by
  rw [overloadsOf, overloads_registerAll, empty, List.append_nil]

/-- What is found is the latest definition that serves. -/
theorem lookup_history_iff {version : String} {history : List (Overload σ)} :
    ((empty version).registerAll history).lookup name count = .ok o
      ↔ o.IsLatest history name count := by
  have serves (p : Overload σ) : decide ((p.signature.name == name) = true
      ∧ p.signature.arity.accepts count = true) = true ↔ p.Serves name count := by
    simp [Overload.Serves]
  rw [lookup_eq_ok_iff, overloadsOf_history, List.find?_filter, List.find?_eq_some_iff_append]
  simp only [Bool.not_eq_true', ← Bool.not_eq_true, serves]
  constructor
  · rintro ⟨own, later, earlier, split, newer⟩
    refine ⟨earlier.reverse, later.reverse, ?_, own, fun p inside => newer p (by simpa using inside)⟩
    simpa using congrArg List.reverse split
  · rintro ⟨earlier, later, rfl, own, newer⟩
    exact ⟨own, later.reverse, earlier.reverse, by simp,
      fun p inside => newer p (by simpa using inside)⟩

theorem lookup_history_notFound_iff {version : String} {history : List (Overload σ)} :
    ((empty version).registerAll history).lookup name count = .error (.functionNotFound name)
      ↔ ∀ o ∈ history, o.signature.name ≠ name := by
  rw [lookup_eq_error_iff, overloadsOf_history]
  simp

theorem lookup_history_mismatch_iff {version : String} {history : List (Overload σ)} :
    ((empty version).registerAll history).lookup name count
        = .error (.arityMismatch name
          (Text.joinWith " | " ((aritiesOf history name).map Arity.text)) count)
      ↔ (∃ o ∈ history, o.signature.name = name) ∧ ∀ o ∈ history, ¬ o.Serves name count := by
  rw [lookup_eq_error_iff, overloadsOf_history]
  simp [aritiesOf, Overload.Serves, Function.comp_def]

/-- The standard functions are registered from the first to the last. -/
theorem standard_eq (version : String) : (standard version : Registry σ)
    = (empty version).registerAll (Builtin.all.map PureFunction.toOverload) := by
  rw [standard, registerAll, List.foldl_map]

theorem overloads_standard (version : String) : (standard version : Registry σ).overloads
    = (Builtin.all.map PureFunction.toOverload).reverse := by
  rw [standard_eq, overloads_registerAll, empty, List.append_nil]

/-- After any registrations, the latest definition that has a name and accepts a number of arguments
is found. A look-up fails for the name if no definition has it, and for the number, telling the
arities of the name from the newest on, if definitions have the name but none accepts the number.
Another registration does not change what is found under other names, nor the definition that is
found for a number that it does not accept. So under the names of the tests of texts a selector
stands beside each test. -/
theorem lookup_finds_latest (version : String) (history : List (Overload σ)) (name : String)
    (count : Nat) :
    (∀ o, ((empty version).registerAll history).lookup name count = .ok o
      ↔ o.IsLatest history name count)
    ∧ (((empty version).registerAll history).lookup name count = .error (.functionNotFound name)
      ↔ ∀ o ∈ history, o.signature.name ≠ name)
    ∧ (((empty version).registerAll history).lookup name count
        = .error (.arityMismatch name
          (Text.joinWith " | " ((aritiesOf history name).map Arity.text)) count)
      ↔ (∃ o ∈ history, o.signature.name = name) ∧ ∀ o ∈ history, ¬ o.Serves name count)
    ∧ (∀ o : Overload σ, o.signature.name ≠ name →
      (((empty version).registerAll history).register o).lookup name count
        = ((empty version).registerAll history).lookup name count)
    ∧ (∀ o p : Overload σ, o.signature.arity.accepts count = false →
      ((((empty version).registerAll history).register o).lookup name count = .ok p
        ↔ ((empty version).registerAll history).lookup name count = .ok p))
    ∧ ∀ test ∈ [("startswith", NamePredicate.startsWith, Text.beginsWith),
        ("endswith", NamePredicate.endsWith, Text.endsWith),
        ("contains", NamePredicate.contains, Text.includes)],
      (standard version : Registry σ).lookup test.1 1 = .ok (Builtin.nameTest test.1 test.2.1).toOverload
      ∧ (standard version : Registry σ).lookup test.1 2
        = .ok (Builtin.textTest test.1 test.2.2).toOverload := by
  refine ⟨fun o => lookup_history_iff, lookup_history_notFound_iff, lookup_history_mismatch_iff,
    fun o other => lookup_register_other other, fun o p refusing => lookup_register_refusing refusing,
    fun test listed => ?_⟩
  simp only [List.mem_cons, List.not_mem_nil, or_false] at listed
  obtain rfl | rfl | rfl := listed <;> exact ⟨rfl, rfl⟩

/-- Of two definitions for one argument the later one is found, also after a third one for another
number; for three arguments both are told. -/
theorem later_definition_found :
    let one : Overload Unit := ⟨.scalar "f" (.exact 1), fun _ => pure (.ok .missing)⟩
    let upToTwo : Overload Unit := ⟨.scalar "f" (.range 1 2), fun _ => pure (.ok .missing)⟩
    let zero : Overload Unit := ⟨.scalar "f" (.exact 0), fun _ => pure (.ok .missing)⟩
    let r := (empty "1").registerAll [one, upToTwo]
    r.lookup "f" 1 = .ok upToTwo
    ∧ r.lookup "f" 3 = .error (.arityMismatch "f" "1..=2 | 1" 3)
    ∧ (r.register zero).lookup "f" 1 = .ok upToTwo
    ∧ (r.register zero).lookup "g" 1 = r.lookup "g" 1 := by
  intro one upToTwo zero r
  obtain ⟨latest, -, -, -, refusing, -⟩ := lookup_finds_latest "1" [one, upToTwo] "f" 1
  have found : r.lookup "f" 1 = .ok upToTwo :=
    (latest upToTwo).mpr ⟨[one], [], rfl, ⟨rfl, rfl⟩, List.forall_mem_nil _⟩
  have neither : ∀ o ∈ [one, upToTwo], ¬ o.Serves "f" 3 := by
    simp [Overload.Serves, one, upToTwo, Signature.scalar, Arity.accepts]
  refine ⟨found, ?_, (refusing zero upToTwo rfl).mpr found, ?_⟩
  · exact (lookup_finds_latest "1" [one, upToTwo] "f" 3).2.2.1.mpr ⟨⟨one, by simp, rfl⟩, neither⟩
  · exact (lookup_finds_latest "1" [one, upToTwo] "g" 1).2.2.2.1 zero (by decide)

/-- A look-up that fails may fail otherwise after a registration: the name has a definition then,
though for another number of arguments. -/
theorem failure_after_registration :
    let one : Overload Unit := ⟨.scalar "f" (.exact 1), fun _ => pure (.ok .missing)⟩
    let r : Registry Unit := empty "1"
    one.signature.arity.accepts 2 = false
    ∧ r.lookup "f" 2 = .error (.functionNotFound "f")
    ∧ (r.register one).lookup "f" 2 = .error (.arityMismatch "f" "1" 2)
    ∧ (r.register one).lookup "f" 2 ≠ r.lookup "f" 2 := by
  intro one r
  have before : r.lookup "f" 2 = .error (.functionNotFound "f") := rfl
  have after : (r.register one).lookup "f" 2 = .error (.arityMismatch "f" "1" 2) := rfl
  refine ⟨rfl, before, after, ?_⟩
  rw [before, after]
  simp

end Registry

end TablePlan
