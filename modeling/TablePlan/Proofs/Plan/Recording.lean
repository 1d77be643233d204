import TablePlan.Proofs.Eval.Contract
import TablePlan.Proofs.Function.Elementwise
import TablePlan.Proofs.Function.Merging
import TablePlan.Proofs.Function.References
import TablePlan.Proofs.Plan.Inversion

/-!
# The columns of a record

Collecting assignments makes a block that ends in a record of the collected fields. Binding replaces
names inside the block but keeps its last statement a record of these fields, so every call that
runs the body gives such a record. The columns of the result are those of the first record in it;
where the body is not run for any row, there is none.
-/

namespace TablePlan

variable {σ : Type}

/-! ### Blocks that end in a record -/

namespace Expr

/-- A record with these fields, in order. -/
def IsRecord (fields : List String) (e : Expr) : Prop :=
  ∃ members, e = record members ∧ members.map Prod.fst = fields

/-- A block whose last statement is a record with these fields. -/
def EndsInRecord (fields : List String) (e : Expr) : Prop :=
  ∃ statements last, e = block (statements ++ [last]) ∧ last.IsRecord fields

variable {e : Expr} {fields : List String}

theorem IsRecord.withChildren {cs : List Expr} (h : e.IsRecord fields)
    (count : cs.length = e.children.length) : (e.withChildren cs).IsRecord fields := by
  obtain ⟨members, rfl, names⟩ := h
  refine ⟨_, rfl, ?_⟩
  rw [List.map_fst_zip (by simpa [children] using count.ge), names]

/-- The last of related elements are related. -/
theorem forall₂_concat_left {α β : Type} {R : α → β → Prop} {as : List α} {a : α} {bs : List β}
    (h : List.Forall₂ R (as ++ [a]) bs) : ∃ bs' b, bs = bs' ++ [b] ∧ R a b := by
  have reversed := List.forall₂_reverse_iff.mpr h
  rw [List.reverse_append, List.reverse_singleton, List.singleton_append,
    List.forall₂_cons_left_iff] at reversed
  obtain ⟨b, rest, related, -, same⟩ := reversed
  exact ⟨rest.reverse, b, List.reverse_eq_cons_iff.mp same, related⟩

theorem EndsInRecord.replaceReferences (h : e.EndsInRecord fields) :
    (e.replaceReferences.run []).1.EndsInRecord fields := by
  have adds := replaceReferences_adds (W := fun _ => True) (Q := fun _ => True)
    (R := fun _ e e' => (e.IsRecord fields → e'.IsRecord fields)
      ∧ (e.EndsInRecord fields → e'.EndsInRecord fields))
    (fun _ _ _ _ _ related => related) ?answer ?rebuild (fun n _ => trivial : e.All fun _ => True)
    (Binding.sound_nil _)
  · exact adds.2.2.2 h
  case answer =>
    -- Neither a record nor a block is a reference.
    intro e r bindings _ reference sound
    refine (Binding.bind_adds trivial sound).mono fun _ _ _ _ => ⟨?_, ?_⟩
    · rintro ⟨members, rfl, -⟩
      cases reference
    · rintro ⟨statements, last, rfl, -⟩
      cases reference
  case rebuild =>
    intro e cs bindings _ _ parts
    refine ⟨fun record => record.withChildren parts.length_eq.symm, ?_⟩
    rintro ⟨statements, last, rfl, record⟩
    obtain ⟨front, last', rfl, related⟩ := forall₂_concat_left parts
    exact ⟨front, last', rfl, related.1 record⟩

theorem EndsInRecord.rename (h : e.EndsInRecord fields) (aliases : List (String × String)) :
    (e.rename aliases).EndsInRecord fields := by
  obtain ⟨statements, last, rfl, members, rfl, names⟩ := h
  rw [rename_eq (by simp), mapParts_eq]
  refine ⟨statements.map (Expr.rename aliases), (record members).rename aliases, by simp, ?_⟩
  rw [rename_eq (by simp), mapParts_eq]
  exact ⟨_, rfl, by simpa [Function.comp_def] using names⟩

end Expr

/-- What is collected ends in a record of the fields. -/
theorem Collected.ofBody_endsInRecord {body : Expr} {collected : Collected}
    (h : ofBody body = .ok collected) : collected.body.EndsInRecord collected.fields := by
  obtain ⟨statements, -, h⟩ := ok_of_bind h
  obtain ⟨⟨statements', fields⟩, -, h⟩ := ok_of_bind h
  dsimp only at h
  split at h <;> cases h
  exact ⟨statements', _, rfl, _, rfl, by simp [Function.comp_def]⟩

/-! ### Evaluation -/

/-- A record with these fields, in order. -/
def Value.IsRecord (fields : List String) (v : Value) : Prop :=
  ∃ members, v = .record members ∧ members.map Prod.fst = fields

namespace Eval

variable {registry : Registry σ} {setting : Setting} {fields : List String} {e : Expr}

theorem evalFields_names (members : List (String × Expr)) (m : Machine σ) :
    (evalFields registry setting members).Ensures m
      (fun values _ => values.map Prod.fst = members.map Prod.fst) fun _ => True := by
  induction members generalizing m with
  | nil => simp [evalFields]
  | cons member rest ih =>
      simp only [evalFields, EvalM.ensures_bind, EvalM.ensures_pure]
      refine (EvalM.ensures_true _ m).mono fun v m₁ _ => ?_
      refine (ih m₁).mono fun values m₂ names => ?_
      simp [names]

theorem eval_record (h : e.IsRecord fields) (m : Machine σ) :
    (eval registry setting e).Ensures m (fun v _ => v.IsRecord fields) fun _ => True := by
  obtain ⟨members, rfl, names⟩ := h
  simp only [eval, EvalM.ensures_bind, EvalM.ensures_pure]
  exact (evalFields_names members m).mono fun values m₁ same => ⟨values, rfl, same.trans names⟩

/-- Statements come to what the last of them comes to. -/
theorem evalStatements_last {Q : Value → Machine σ → Prop}
    (last : ∀ m, (eval registry setting e).Ensures m Q fun _ => True) (statements : List Expr)
    (before : Value) (m : Machine σ) :
    (evalStatements registry setting before (statements ++ [e])).Ensures m Q fun _ => True := by
  induction statements generalizing before m with
  | nil => simpa [evalStatements] using last m
  | cons statement rest ih =>
      rw [List.cons_append, evalStatements, EvalM.ensures_bind]
      exact (EvalM.ensures_true _ m).mono fun v m₁ _ => ih v m₁

theorem eval_endsInRecord (h : e.EndsInRecord fields) (m : Machine σ) :
    (eval registry setting e).Ensures m (fun v _ => v.IsRecord fields) fun _ => True := by
  obtain ⟨statements, last, rfl, record⟩ := h
  have value : (evalStatements registry setting .missing (statements ++ [last])).Ensures m
      (fun v _ => v.IsRecord fields) fun _ => True :=
    evalStatements_last (fun m => eval_record record m) statements .missing m
  simp only [eval, EvalM.ensures_bind, EvalM.ensures_get, EvalM.ensures_modify,
    EvalM.ensures_pure]
  exact value

end Eval

/-! ### Calls -/

namespace Function

variable {f : Function σ} {fields : List String}

/-- A call gives a record unless it is settled by a missing argument. -/
theorem call_record (h : f.body.EndsInRecord fields) {args : List Value} {v : Value}
    (ran : ∃ s s', f.call args s = (.ok v, s')) :
    f.skips args = true ∧ v = .missing ∨ f.skips args = false ∧ v.IsRecord fields := by
  obtain ⟨s, s', ran⟩ := ran
  unfold call at ran
  split at ran
  · cases ran
  · cases settled : f.skips args with
    | true =>
        rw [settled] at ran
        cases ran
        exact .inl ⟨rfl, rfl⟩
    | false =>
        rw [settled] at ran
        have record : (Eval.eval f.registry .body f.body).Ensures ⟨f.env args, s⟩
            (fun v _ => v.IsRecord fields) fun _ => True := Eval.eval_endsInRecord h _
        have outcome : (Eval.eval f.registry .body f.body ⟨f.env args, s⟩).1 = .ok v :=
          congrArg Prod.fst ran
        refine .inr ⟨rfl, ?_⟩
        unfold EvalM.Ensures at record
        split at record
        · rename_i result
          rw [result] at outcome
          cases outcome
          exact record
        · rename_i result
          rw [result] at outcome
          cases outcome

/-- The results of one row after another. -/
theorem callRows_ok {argss : List (List Value)} {vs : List Value} {s s' : σ}
    (h : (f.callRows argss).run s = (.ok vs, s')) :
    List.Forall₂ (fun args v => ∃ s₁ s₂, f.call args s₁ = (.ok v, s₂)) argss vs := by
  induction argss generalizing vs s with
  | nil =>
      obtain ⟨rfl, -⟩ := run_of_pure h
      exact .nil
  | cons args rest ih =>
      obtain ⟨v, s₁, first, h⟩ := run_of_bind h
      obtain ⟨vs', s₂, later, h⟩ := run_of_bind h
      obtain ⟨rfl, rfl⟩ := run_of_pure h
      exact .cons ⟨s, s₁, first⟩ (ih later)

/-- Applying the function to columns runs its body: it always does in column mode, and in row mode
unless there is no row, or every row is settled by a missing argument. -/
def Runs (f : Function σ) (columns : List Value) (rows : Nat) : Prop :=
  f.mode = .columnWise ∨ ∃ row < rows, f.skips (columns.map (·.atRow row)) = false

/-- The columns that a function is applied to row by row have an element for each row. -/
theorem columns_of_items {columns : List Value} {rows : Nat} {lists : List (List Value)}
    (h : columns.mapM (columnItems rows) = .ok lists) :
    columns = lists.map .list ∧ ∀ items ∈ lists, items.length = rows := by
  have each : List.Forall₂ (fun column items => column = .list items ∧ items.length = rows)
      columns lists := by
    refine (mapM_ok_iff.mp h).imp fun column items found => ?_
    unfold columnItems at found
    split at found
    · split at found <;> cases found
      exact ⟨rfl, by assumption⟩
    · cases found
  constructor
  · exact List.forall₂_eq_eq_eq ▸ List.forall₂_map_right_iff.mpr (each.imp fun _ _ both => both.1)
  · intro items inside
    obtain ⟨column, -, both⟩ := exists_of_mem_right each inside
    exact both.2

/-- What applying a function in row mode comes to. -/
theorem apply_rowWise_ok {columns : List Value} {rows : Nat} {out : Value} {s s' : σ}
    (mode : f.mode = .rowWise) (h : (f.apply columns rows).run s = (.ok out, s')) :
    ∃ vs, out = .list vs ∧ List.Forall₂ (fun row v => ∃ s₁ s₂,
      f.call (columns.map (·.atRow row)) s₁ = (.ok v, s₂)) (List.range rows) vs := by
  rw [apply, mode] at h
  obtain ⟨lists, s₁, listed, h⟩ := run_of_bind h
  obtain ⟨vs, s₂, called, h⟩ := run_of_bind h
  obtain ⟨rfl, -⟩ := run_of_pure h
  obtain ⟨rfl, count⟩ := columns_of_items (run_of_lift listed).1
  refine ⟨vs, rfl, ?_⟩
  rw [rowArguments_eq count] at called
  exact List.forall₂_map_left_iff.mp (callRows_ok called)

theorem recordFields?_list {vs : List Value}
    (each : ∀ v ∈ vs, v = .missing ∨ v.IsRecord fields) :
    (∃ v ∈ vs, v.IsRecord fields) ∧ (∃ members, Sink.recordFields? (.list vs) = some members
        ∧ members.map Prod.fst = fields)
      ∨ (∀ v ∈ vs, v = .missing) ∧ Sink.recordFields? (.list vs) = none := by
  induction vs with
  | nil => exact .inr ⟨nofun, rfl⟩
  | cons v rest ih =>
      rw [List.forall_mem_cons] at each
      obtain rfl | record := each.1
      · have skipped : Sink.recordFields? (.list (.missing :: rest))
            = Sink.recordFields? (.list rest) := rfl
        rw [skipped, List.exists_mem_cons_iff, List.forall_mem_cons]
        obtain ⟨later, found⟩ | ⟨none, found⟩ := ih each.2
        · exact .inl ⟨.inr later, found⟩
        · exact .inr ⟨⟨rfl, none⟩, found⟩
      · obtain ⟨members, rfl, names⟩ := record
        exact .inl ⟨⟨_, List.mem_cons_self, members, rfl, names⟩, members, rfl, names⟩

/-- The columns of the result are the fields if the body was run, and cannot be told otherwise. -/
theorem columnsFor_apply (h : f.body.EndsInRecord fields) {columns : List Value} {rows : Nat}
    {out : Value} {s s' : σ} (ran : (f.apply columns rows).run s = (.ok out, s')) :
    (f.Runs columns rows → Sink.expandRecord.columnsFor out = .ok fields)
      ∧ (¬ f.Runs columns rows →
        Sink.expandRecord.columnsFor out = .error (.mismatch "expand record" [out])) := by
  cases mode : f.mode with
  | columnWise =>
      refine ⟨fun _ => ?_, fun never => absurd (.inl mode) never⟩
      rw [apply, mode] at ran
      obtain ⟨settled, -⟩ | ⟨-, members, rfl, names⟩ := call_record h ⟨s, s', ran⟩
      · simp [skips, mode] at settled
      · simp [Sink.columnsFor, Sink.recordFields?, names]
  | rowWise =>
      obtain ⟨vs, rfl, each⟩ := apply_rowWise_ok mode ran
      have settled : ∀ v ∈ vs, v = .missing ∨ v.IsRecord fields := by
        intro v inside
        obtain ⟨row, -, there⟩ := exists_of_mem_right each inside
        exact (call_record h there).imp And.right And.right
      obtain ⟨⟨v, inside, record⟩, members, found, names⟩ | ⟨none, found⟩ :=
        recordFields?_list settled
      · refine ⟨fun _ => by simp [Sink.columnsFor, found, names], fun never => absurd ?_ never⟩
        obtain ⟨row, below, there⟩ := exists_of_mem_right each inside
        obtain ⟨-, rfl⟩ | ⟨runs, -⟩ := call_record h there
        · obtain ⟨members, same, -⟩ := record
          cases same
        · exact .inr ⟨row, List.mem_range.mp below, runs⟩
      · refine ⟨fun runs => ?_, fun _ => by simp [Sink.columnsFor, found]⟩
        obtain whole | ⟨row, below, runs⟩ := runs
        · rw [mode] at whole
          cases whole
        · obtain ⟨v, inside, there⟩ := exists_of_mem_left each (List.mem_range.mpr below)
          obtain ⟨skips, -⟩ | ⟨-, members, same, -⟩ := call_record h there
          · rw [runs] at skips
            cases skips
          · rw [none v inside] at same
            cases same

end Function

/-! ### Bound arguments -/

namespace ArgumentPlan

/-- An argument that collects has the collected fields as its target, and its body ends in a record of
them. -/
theorem body_of_collect {p : Peeled} {body : Expr} {target : Target}
    (collect : p.directives.collect = true) (split : bodyAndTarget p = .ok (body, target)) :
    ∃ fields, target = .expandRecord fields ∧ body.EndsInRecord fields := by
  rw [bodyAndTarget, if_pos collect] at split
  obtain ⟨collected, made, split⟩ := ok_of_bind split
  cases split
  exact ⟨collected.fields, rfl, Collected.ofBody_endsInRecord made⟩

/-- The results of an argument that collects go to columns named like its fields, in order, whenever
its body was run at least once; otherwise there is no record to name them. -/
theorem record_columns_are_fields {registry : Registry σ} {kind : Kind} {index : Nat} {arg : Expr}
    {plan : ArgumentPlan} {schema : Schema} {scope : Scope} {triples : List (Triple σ)} {s s' : σ}
    (planned : ofArgument registry kind index arg = .ok plan)
    (collect : plan.directives.collect = true)
    (bound : (plan.bind registry schema scope).run s = (.ok triples, s')) :
    ∃ fields, plan.target = .expandRecord fields ∧ ∀ t ∈ triples, t.sink = .expandRecord
      ∧ ∀ columns rows s₁ out s₂, (t.function.apply columns rows).run s₁ = (.ok out, s₂) →
        (t.function.Runs columns rows → t.sink.columnsFor out = .ok fields)
        ∧ (¬ t.function.Runs columns rows →
          t.sink.columnsFor out = .error (.mismatch "expand record" [out])) := by
  obtain ⟨p, mode, body, target, -, -, split, -, -, rfl⟩ := ofArgument_ok planned
  obtain ⟨fields, rfl, record⟩ := body_of_collect collect split
  obtain ⟨sources, s₁, function, sink, pairing, sinks, -, made, -, -, rfl⟩ := bind_ok bound
  refine ⟨fields, rfl, fun t inside => ?_⟩
  obtain ⟨⟨names, sink⟩, -, rfl⟩ := List.mem_map.mp inside
  refine ⟨rfl, fun columns rows s₁ out s₂ ran => Function.columnsFor_apply ?_ ran⟩
  obtain ⟨-, sameBody, -⟩ := Template.instantiate_ok made
  rw [sameBody, Template.body_mergeParams]
  exact record.replaceReferences.rename sources.aliases

/-- In `@tm :b = :a` the second of two rows is settled by its missing argument, and the first names the
column. -/
theorem first_row_names_columns : ∃ (plan : ArgumentPlan) (t : Triple Unit) (out : Value),
    plan.target = .expandRecord ["b"]
      ∧ ((t.function.apply [.list [.int 1, .missing]] 2).run ()).1 = .ok out
      ∧ out = .list [.record [("b", .int 1)], .missing] ∧ t.sink.columnsFor out = .ok ["b"] := by
  let arg : Expr := .directed "tm" (.assign (.column (.name "b")) (.column (.name "a")))
  obtain ⟨plan, t, planned, collect, target, bound, ran, runs⟩ :
      ∃ (plan : ArgumentPlan) (t : Triple Unit),
        ofArgument (Registry.empty "1") .transform 0 arg = .ok plan
        ∧ plan.directives.collect = true ∧ plan.target = .expandRecord ["b"]
        ∧ (plan.bind (Registry.empty "1") ⟨"t", [⟨"a", .int, true⟩]⟩ .empty).run ()
          = (.ok [t], ())
        ∧ (t.function.apply [.list [.int 1, .missing]] 2).run ()
          = (.ok (.list [.record [("b", .int 1)], .missing]), ())
        ∧ t.function.skips ([Value.list [.int 1, .missing]].map (·.atRow 0)) = false :=
    ⟨_, _, rfl, rfl, rfl, rfl, rfl, rfl⟩
  obtain ⟨fields, same, each⟩ := record_columns_are_fields planned collect bound
  obtain rfl : ["b"] = fields := Target.expandRecord.inj (target.symm.trans same)
  refine ⟨plan, t, _, target, congrArg Prod.fst ran, rfl, ?_⟩
  exact ((each t List.mem_cons_self).2 _ _ _ _ _ ran).1 (.inr ⟨0, by decide, runs⟩)

/-- Without rows there is no record, and the columns of `@t :b = :a` cannot be told from the result. -/
theorem no_row_names_no_columns : ∃ (plan : ArgumentPlan) (t : Triple Unit) (out : Value),
    ofArgument (Registry.empty (σ := Unit) "1") .transform 0
        (.directed "t" (.assign (.column (.name "b")) (.column (.name "a")))) = .ok plan
      ∧ plan.directives.collect = true ∧ plan.target = .expandRecord ["b"]
      ∧ (plan.bind (Registry.empty "1") ⟨"t", [⟨"a", .int, true⟩]⟩ .empty).run () = (.ok [t], ())
      ∧ (t.function.apply [.list []] 0).run () = (.ok out, ())
      ∧ t.sink.columnsFor out = .error (.mismatch "expand record" [out])
      ∧ t.sink.columnsFor out ≠ .ok ["b"] :=
  ⟨_, _, _, rfl, rfl, rfl, rfl, rfl, rfl, nofun⟩

end ArgumentPlan

end TablePlan
