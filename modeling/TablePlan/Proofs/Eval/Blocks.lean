import TablePlan.Proofs.Eval.Stepping

/-!
# What blocks leave behind

An evaluation only adds variables on top of those it starts with, and only variables of names that
its assignments bind. A block drops the variables it has added once all its statements have
succeeded. If one of them fails, the block fails at once, and what was added up to then stays.
-/

namespace TablePlan

variable {σ : Type}

theorem Env.eq_iff {env env' : Env} : env = env' ↔ env.vars = env'.vars := by
  cases env
  cases env'
  rw [mk.injEq]

namespace Expr

/-- The names that a target binds, at any depth. -/
def targetNames (e : Expr) : List String :=
  e.nodes.filterMap fun
    | ident name | splat name => some name
    | _ => none

/-- The names in the targets of all assignments in an expression. -/
def assignedNames (e : Expr) : List String :=
  e.nodes.flatMap fun
    | assign target _ => target.targetNames
    | _ => []

end Expr

namespace Eval

open TablePlan.Expr

variable {registry : Registry σ} {setting : Setting}

/-- Whether it succeeds or fails, an evaluation leaves the variables it started with, in their order
and beneath those of names that it assigns. -/
theorem eval_adds (registry : Registry σ) (setting : Setting) (e : Expr) (m : Machine σ) :
    ∃ added, (eval registry setting e m).2.env.vars = added ++ m.env.vars
      ∧ ∀ v ∈ added, v.1 ∈ e.assignedNames := by
  -- Two runs from the same variables agree on all lookups, so only what is bound has to be shared.
  let P : Parallel σ := ⟨(· ∈ e.assignedNames), m.env.vars, m.env.vars, Eq⟩
  have agrees : P.Agrees registry :=
    ⟨fun _ _ => rfl, fun func args s t same => by cases same; exact ⟨rfl, rfl⟩⟩
  have reads : e.All P.Reads := by
    intro n inside
    cases n with
    | ident name => rfl
    | assign target value =>
        have bound (k : Expr) (there : k ∈ target.nodes) (name : String)
            (is : k = ident name ∨ k = splat name) : name ∈ e.assignedNames := by
          refine List.mem_flatMap.mpr ⟨_, inside, List.mem_filterMap.mpr ⟨k, there, ?_⟩⟩
          obtain rfl | rfl := is <;> rfl
        intro k there
        cases k with
        | ident name => exact bound _ there name (.inl rfl)
        | splat name => exact bound _ there name (.inr rfl)
        | _ => trivial
    | _ => trivial
  obtain ⟨outcome, added, s, t, ran, -, named, -⟩ :=
    eval_runs_of_reads agrees reads setting [] m.state m.state (fun _ never => nomatch never) rfl
  exact ⟨added, congrArg (fun out => out.2.env.vars) ran, named⟩

/-- Statements that succeed one after another add variables of names that one of them assigns. -/
theorem evalStatements_adds {statements : List Expr} {last v : Value} {m m' : Machine σ}
    (h : evalStatements registry setting last statements m = (.ok v, m')) :
    ∃ added, m'.env.vars = added ++ m.env.vars
      ∧ ∀ x ∈ added, ∃ statement ∈ statements, x.1 ∈ statement.assignedNames := by
  induction statements generalizing last m with
  | nil =>
      cases h
      exact ⟨[], rfl, List.forall_mem_nil _⟩
  | cons statement rest ih =>
      rw [evalStatements] at h
      obtain ⟨w, m₁, first, later⟩ := run_of_bind h
      obtain ⟨added, grown, named⟩ := eval_adds registry setting statement m
      obtain ⟨more, grown', named'⟩ := ih later
      have ran : eval registry setting statement m = (.ok w, m₁) := first
      rw [ran] at grown
      refine ⟨more ++ added, by rw [grown', grown, List.append_assoc],
        List.forall_mem_append.mpr ⟨fun x inside => ?_, fun x inside => ?_⟩⟩
      · obtain ⟨other, there, assigned⟩ := named' x inside
        exact ⟨other, List.mem_cons_of_mem _ there, assigned⟩
      · exact ⟨statement, List.mem_cons_self, named x inside⟩

/-- Statements fail as one of them does, after those before it have succeeded. -/
theorem evalStatements_error {statements : List Expr} {last : Value} {m m' : Machine σ}
    {e : EvalError} (h : evalStatements registry setting last statements m = (.error e, m')) :
    ∃ done failing rest v m₁, statements = done ++ failing :: rest
      ∧ evalStatements registry setting last done m = (.ok v, m₁)
      ∧ eval registry setting failing m₁ = (.error e, m') := by
  induction statements generalizing last m with
  | nil => cases h
  | cons statement rest ih =>
      rw [evalStatements] at h
      obtain failed | ⟨v, m₁, first, later⟩ := run_bind_error_iff.mp h
      · exact ⟨[], statement, rest, last, m, rfl, rfl, failed⟩
      · obtain ⟨done, failing, others, w, m₂, rfl, ran, failed⟩ := ih later
        refine ⟨statement :: done, failing, others, w, m₂, rfl, ?_, failed⟩
        rw [evalStatements]
        exact (bind_of_ok first).trans ran

/-- A block that comes to a value leaves exactly the variables that it started with. A block that
fails leaves those of the statements before the failing one, and of that one up to its failure, on
top of them: all of names that the statements assign. So it leaves no trace exactly if none was
added up to then. -/
theorem block_leaves (registry : Registry σ) (setting : Setting) (statements : List Expr)
    (m : Machine σ) :
    (∃ v m', eval registry setting (block statements) m = (.ok v, m') ∧ m'.env = m.env)
    ∨ ∃ e m' done failing rest v m₁ earlier later,
      eval registry setting (block statements) m = (.error e, m')
      ∧ statements = done ++ failing :: rest
      ∧ evalStatements registry setting .missing done m = (.ok v, m₁)
      ∧ eval registry setting failing m₁ = (.error e, m')
      ∧ m₁.env.vars = earlier ++ m.env.vars
      ∧ (∀ x ∈ earlier, ∃ statement ∈ done, x.1 ∈ statement.assignedNames)
      ∧ m'.env.vars = later ++ m₁.env.vars
      ∧ (∀ x ∈ later, x.1 ∈ failing.assignedNames)
      ∧ (m'.env = m.env ↔ earlier = [] ∧ later = []) := by
  rcases ran : evalStatements registry setting .missing statements m with ⟨e | v, m'⟩
  · obtain ⟨done, failing, rest, v, m₁, rfl, before, failed⟩ := evalStatements_error ran
    obtain ⟨earlier, grown, named⟩ := evalStatements_adds before
    obtain ⟨later, grown', named'⟩ := eval_adds registry setting failing m₁
    rw [failed] at grown'
    have whole : m'.env.vars = (later ++ earlier) ++ m.env.vars := by
      rw [grown', grown, List.append_assoc]
    have untouched : m'.env = m.env ↔ earlier = [] ∧ later = [] := by
      rw [Env.eq_iff, whole, List.append_left_eq_self, List.append_eq_nil_iff, and_comm]
    exact .inr ⟨e, m', done, failing, rest, v, m₁, earlier, later, eval_block_of_error ran, rfl, before,
      failed, grown, named, grown', named', untouched⟩
  · obtain ⟨added, grown, -⟩ := evalStatements_adds ran
    exact .inl ⟨v, _, eval_block_of_ok ran, Env.truncate_of_added grown⟩

-- A destructuring that fails at its second target has bound the first one.
example :
    let pair := vector [literal (.int 1), literal (.int 2)]
    let target := tuple [ident "a", tuple [ident "b"]]
    (eval (Registry.empty "1") .body (block [.assign target pair]) ⟨.empty, ()⟩).2.env.vars
      = [("a", .int 1)] := rfl

end Eval

end TablePlan
