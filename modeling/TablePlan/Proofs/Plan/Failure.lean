import TablePlan.Proofs.Argument.Body
import TablePlan.Proofs.Plan.Inversion

/-!
# Where a call that cannot be planned fails

Planning walks over the arguments twice: once to put the statements of blocks in their place, and
once to plan what came of it. Both walks stop at the first failure and report its position. The
first one counts the arguments as they were given and fails on unknown letters of a directive
around a whole argument; every other failure is counted after the blocks are expanded.
-/

namespace TablePlan

variable {σ α β γ ε : Type}

/-- Position `index` is the first at which `f` fails, and it fails there with `cause`. -/
def FailsFirst (f : Nat → α → Except ε β) (items : List α) (index : Nat) (cause : ε) : Prop :=
  (∃ a, items[index]? = some a ∧ f index a = .error cause)
    ∧ ∀ j < index, ∀ a, items[j]? = some a → ∃ b, f j a = .ok b

theorem not_failsFirst_nil (f : Nat → α → Except ε β) (index : Nat) (cause : ε) :
    ¬ FailsFirst f [] index cause := by
  rintro ⟨⟨a, there, -⟩, -⟩
  cases there

/-- The first failure is at the first item, or it is the first one after an item without. -/
theorem failsFirst_cons_iff {f : Nat → α → Except ε β} {a : α} {rest : List α} {index : Nat}
    {cause : ε} : FailsFirst f (a :: rest) index cause ↔
      (index = 0 ∧ f 0 a = .error cause)
        ∨ ∃ i, index = i + 1 ∧ (∃ b, f 0 a = .ok b) ∧ FailsFirst (fun j => f (j + 1)) rest i cause := by
  constructor
  · rintro ⟨⟨a', there, fails⟩, before⟩
    cases index with
    | zero =>
        cases there
        exact .inl ⟨rfl, fails⟩
    | succ i =>
        refine .inr ⟨i, rfl, before 0 (by omega) a rfl, ⟨a', there, fails⟩, fun j lower b found => ?_⟩
        exact before (j + 1) (by omega) b found
  · rintro (⟨rfl, fails⟩ | ⟨i, rfl, first, ⟨a', there, fails⟩, before⟩)
    · exact ⟨⟨a, rfl, fails⟩, fun j lower => absurd lower (by omega)⟩
    · refine ⟨⟨a', there, fails⟩, fun j lower b found => ?_⟩
      cases j with
      | zero =>
          cases found
          exact first
      | succ j => exact before j (by omega) b found

/-- A walk over several items that gives each of them to `f` with its position and stops at the
first failure, which it reports with that position. -/
structure Walks (f : Nat → α → Except ArgumentError β) (walk : Nat → List α → Except PlanError γ) :
    Prop where
  nil : ∀ first, ∃ c, walk first [] = .ok c
  cons : ∀ first a rest, ∃ add : β → γ → γ, walk first (a :: rest) = do
    let b ← (f first a).mapError (.argument first)
    let c ← walk (first + 1) rest
    return add b c

namespace Walks

variable {f : Nat → α → Except ArgumentError β} {walk : Nat → List α → Except PlanError γ}

/-- A walk fails with the first failure of an item and in no other way. -/
theorem error_iff (h : Walks f walk) {items : List α} {first : Nat} {e : PlanError} :
    walk first items = .error e ↔ ∃ i cause, e = .argument (first + i) cause
      ∧ FailsFirst (fun j => f (first + j)) items i cause := by
  induction items generalizing first with
  | nil =>
      obtain ⟨c, done⟩ := h.nil first
      simp [done, not_failsFirst_nil]
  | cons a rest ih =>
      obtain ⟨add, step⟩ := h.cons first a rest
      have shift : (fun j => f (first + (j + 1))) = fun j => f (first + 1 + j) := by
        funext j
        rw [Nat.add_right_comm, Nat.add_assoc]
      simp only [step, failsFirst_cons_iff, Nat.add_zero, shift]
      cases here : f first a with
      | error cause => simp [Except.mapError, bind, Except.bind, eq_comm]
      | ok b =>
          have later : (do
              let b ← (Except.ok b : Except ArgumentError β).mapError (.argument first)
              let c ← walk (first + 1) rest
              return add b c : Except PlanError γ) = .error e ↔ walk (first + 1) rest = .error e := by
            cases walk (first + 1) rest <;> simp [Except.mapError, bind, Except.bind, pure, Except.pure]
          rw [later, ih]
          constructor
          · rintro ⟨i, cause, rfl, fails⟩
            exact ⟨i + 1, cause, by rw [Nat.add_assoc, Nat.add_comm 1 i],
              .inr ⟨i, rfl, ⟨b, rfl⟩, fails⟩⟩
          · rintro ⟨i, cause, rfl, ⟨-, impossible⟩ | ⟨i, rfl, -, fails⟩⟩
            · cases impossible
            · exact ⟨i, cause, by rw [Nat.add_assoc, Nat.add_comm 1 i], fails⟩

/-- A walk comes to an end if no item fails, and only then. -/
theorem exists_ok_iff (h : Walks f walk) {items : List α} {first : Nat} :
    (∃ c, walk first items = .ok c)
      ↔ ∀ i a, items[i]? = some a → ∃ b, f (first + i) a = .ok b := by
  induction items generalizing first with
  | nil => simp [h.nil first]
  | cons a rest ih =>
      obtain ⟨add, step⟩ := h.cons first a rest
      have parts : (∃ c, walk first (a :: rest) = .ok c)
          ↔ (∃ b, f first a = .ok b) ∧ ∃ c, walk (first + 1) rest = .ok c := by
        rw [step]
        cases f first a <;> cases walk (first + 1) rest <;>
          simp [Except.mapError, bind, Except.bind, pure, Except.pure]
      rw [parts, ih]
      constructor
      · rintro ⟨here, later⟩ i b found
        cases i with
        | zero =>
            cases found
            exact here
        | succ i =>
            have := later i b found
            rwa [Nat.add_assoc, Nat.add_comm 1 i] at this
      · intro all
        refine ⟨all 0 a rfl, fun i b found => ?_⟩
        have := all (i + 1) b found
        rwa [Nat.add_assoc, Nat.add_comm 1 i]

end Walks

/-! ### The two walks -/

namespace Plan

/-- Arguments with the statements of every block in its place. -/
def spread (args : List Expr) : List Expr :=
  args.flatMap fun
    | .block statements => statements
    | arg => [arg]

/-- What stands for an argument once blocks are expanded, by the part that it plays. -/
def expansion (arg : Expr) : Role → List Expr
  | .block statements => statements
  | _ => [arg]

theorem expandBlocks_walks : Walks (fun _ => Expr.role) expandBlocks where
  nil _ := ⟨[], rfl⟩
  cons index arg rest := by
    refine ⟨fun role others => expansion arg role ++ others, ?_⟩
    rw [expandBlocks]
    cases arg.role with
    | error cause => rfl
    | ok role =>
        cases expandBlocks (index + 1) rest <;> cases role <;> rfl

theorem planArguments_walks (registry : Registry σ) (kind : Kind) :
    Walks (ArgumentPlan.ofArgument registry kind) (planArguments registry kind) where
  nil _ := ⟨[], rfl⟩
  cons _ _ _ := ⟨fun plan plans => plan :: plans, rfl⟩

theorem spread_cons {arg : Expr} {role : Role} (played : arg.role = .ok role) (rest : List Expr) :
    spread (arg :: rest) = expansion arg role ++ spread rest := by
  unfold Expr.role at played
  split at played
  case h_3 letters inner =>
    obtain ⟨directives, -, played⟩ := ok_of_bind played
    cases played
    rfl
  case h_6 notBlock _ =>
    cases played
    cases arg <;> first | rfl | exact absurd rfl (notBlock _)
  all_goals
    cases played
    rfl

/-- Expanding blocks gives the spread arguments if no argument has a directive with unknown letters
around it. -/
theorem expandBlocks_eq_ok_iff {args expanded : List Expr} {index : Nat} :
    expandBlocks index args = .ok expanded
      ↔ expanded = spread args ∧ ∀ arg ∈ args, ∃ role, arg.role = .ok role := by
  induction args generalizing index expanded with
  | nil => simp [expandBlocks, spread, eq_comm]
  | cons arg rest ih =>
      rw [List.forall_mem_cons]
      cases played : arg.role with
      | error cause =>
          have failed : expandBlocks index (arg :: rest) = .error (.argument index cause) := by
            rw [expandBlocks, played]
            rfl
          simp [failed]
      | ok role =>
          have step : expandBlocks index (arg :: rest) = (expandBlocks (index + 1) rest).map
              (expansion arg role ++ ·) := by
            rw [expandBlocks, played]
            cases role <;> cases expandBlocks (index + 1) rest <;> rfl
          rw [step, spread_cons played]
          constructor
          · intro h
            cases later : expandBlocks (index + 1) rest with
            | error e =>
                rw [later] at h
                cases h
            | ok others =>
                rw [later] at h
                cases h
                obtain ⟨rfl, roles⟩ := ih.mp later
                exact ⟨rfl, ⟨role, rfl⟩, roles⟩
          · rintro ⟨rfl, -, roles⟩
            rw [ih.mpr ⟨rfl, roles⟩]
            rfl

end Plan

namespace ArgumentPlan

/-- An argument that is planned has no directive with unknown letters around it. -/
theorem role_of_ofArgument {registry : Registry σ} {kind : Kind} {index : Nat} {arg : Expr}
    {plan : ArgumentPlan} (h : ofArgument registry kind index arg = .ok plan) :
    ∃ role, arg.role = .ok role := by
  obtain ⟨p, mode, body, target, peeled, -⟩ := ofArgument_ok h
  obtain ⟨q, outermost, -⟩ := ok_of_bind peeled
  obtain ⟨role, played, -⟩ := ok_of_bind outermost
  exact ⟨role, played⟩

end ArgumentPlan

namespace Plan

theorem role_of_spread {registry : Registry σ} {kind : Kind} {args : List Expr}
    (planned : ∀ (i : Nat) (arg : Expr), (spread args)[i]? = some arg →
      ∃ plan, ArgumentPlan.ofArgument registry kind i arg = .ok plan) :
    ∀ arg ∈ args, ∃ role, arg.role = .ok role := by
  intro arg inside
  by_cases isBlock : ∃ statements, arg = .block statements
  · obtain ⟨statements, rfl⟩ := isBlock
    exact ⟨_, rfl⟩
  · have listed : arg ∈ spread args := by
      refine List.mem_flatMap.mpr ⟨arg, inside, ?_⟩
      split
      · exact absurd ⟨_, rfl⟩ isBlock
      · exact List.mem_singleton_self _
    obtain ⟨i, found⟩ := List.mem_iff_getElem?.mp listed
    obtain ⟨plan, ok⟩ := planned i arg found
    exact ArgumentPlan.role_of_ofArgument ok

/-- The outcome of planning a call. It is planned if every argument is, once blocks are expanded,
and the plans are those of the arguments in order. Otherwise the error is that of the first
argument that fails, with its position after blocks are expanded; but unknown letters of a
directive around a whole argument come first and are reported with the position before. -/
theorem ofArguments_outcome (registry : Registry σ) (kind : Kind) (arguments : Arguments) :
    ((∃ plan, ofArguments registry kind arguments = .ok plan)
      ↔ ∀ (i : Nat) (arg : Expr), (spread arguments.positional)[i]? = some arg →
        ∃ plan, ArgumentPlan.ofArgument registry kind i arg = .ok plan)
    ∧ (∀ plan, ofArguments registry kind arguments = .ok plan →
        plan.kind = kind ∧ plan.options = arguments.options ∧ plan.registry = registry
        ∧ List.Forall₂ (fun arg plan => ArgumentPlan.ofArgument registry kind arg.2 arg.1 = .ok plan)
          (spread arguments.positional).zipIdx plan.arguments)
    ∧ ∀ e, ofArguments registry kind arguments = .error e ↔ ∃ index cause, e = .argument index cause
        ∧ (FailsFirst (fun _ => Expr.role) arguments.positional index cause
          ∨ (∀ arg ∈ arguments.positional, ∃ role, arg.role = .ok role)
            ∧ FailsFirst (ArgumentPlan.ofArgument registry kind) (spread arguments.positional)
              index cause) := by
  have walks := planArguments_walks registry kind
  have roles (e : PlanError) : expandBlocks 0 arguments.positional = .error e ↔ _ :=
    expandBlocks_walks.error_iff
  have plans (e : PlanError) :
      planArguments registry kind 0 (spread arguments.positional) = .error e ↔ _ := walks.error_iff
  have each : (∃ c, planArguments registry kind 0 (spread arguments.positional) = .ok c) ↔ _ :=
    walks.exists_ok_iff
  simp only [Nat.zero_add] at roles plans each
  rw [← each]
  cases expanded : expandBlocks 0 arguments.positional with
  | error e =>
      have failed : ofArguments registry kind arguments = .error e := by
        rw [ofArguments, expanded]
        rfl
      rw [expanded] at roles
      have some : ¬ ∀ arg ∈ arguments.positional, ∃ role, arg.role = .ok role := by
        intro all
        rw [expandBlocks_eq_ok_iff.mpr ⟨rfl, all⟩] at expanded
        cases expanded
      refine ⟨⟨fun ⟨_, h⟩ => ?_, fun planned => ?_⟩, fun _ h => ?_, fun e' => ?_⟩
      · rw [failed] at h
        cases h
      · exact absurd (role_of_spread (each.mp planned)) some
      · rw [failed] at h
        cases h
      · simpa [failed, some] using roles e'
  | ok args =>
      obtain ⟨rfl, all⟩ := expandBlocks_eq_ok_iff.mp expanded
      have continued : ofArguments registry kind arguments
          = (planArguments registry kind 0 (spread arguments.positional)).map
            fun plans => ⟨kind, plans, arguments.options, registry⟩ := by
        rw [ofArguments, expanded]
        rfl
      rw [expanded] at roles
      have none (i : Nat) (cause : ArgumentError) :
          ¬ FailsFirst (fun _ => Expr.role) arguments.positional i cause :=
        fun fails => nomatch (roles _).mpr ⟨i, cause, rfl, fails⟩
      refine ⟨?_, fun plan h => ?_, fun e => ?_⟩
      · rw [continued]
        cases planArguments registry kind 0 (spread arguments.positional) <;> simp [Except.map]
      · rw [continued] at h
        cases planned : planArguments registry kind 0 (spread arguments.positional) with
        | error e =>
            rw [planned] at h
            cases h
        | ok made =>
            rw [planned] at h
            cases h
            exact ⟨rfl, rfl, rfl, planArguments_ok planned⟩
      · have same : ofArguments registry kind arguments = .error e
            ↔ planArguments registry kind 0 (spread arguments.positional) = .error e := by
          rw [continued]
          cases planArguments registry kind 0 (spread arguments.positional) <;> simp [Except.map]
        rw [same, plans]
        simp only [none, false_or, and_iff_right all]

/-- Unknown letters count the block before them as one argument. -/
example : (ofArguments (Registry.empty (σ := Unit) "1") .transform
      ⟨[.block [.ident "a", .ident "b"], .directed "q" (.ident "c")], []⟩).mapError PlanError.message
    = .error "argument 2: Malformed directive @q: unknown directive `q`" := rfl

end Plan

end TablePlan
