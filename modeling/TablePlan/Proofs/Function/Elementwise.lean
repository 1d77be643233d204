import TablePlan.Builtin.Numeric
import TablePlan.Function.Basic
import TablePlan.Proofs.Eval.Broadcast
import TablePlan.Proofs.Registry

/-!
# Rows and whole columns

A body that is built from parameters and constants by operators and by functions of scalars can be
run in two ways: once for every row, or once on whole columns with every operator and call dotted.
Both ways come to the same column.
-/

namespace TablePlan

variable {σ α β : Type}

/-! ### Bodies -/

/-- Calls of a function with a number of scalars are pure and give scalars. -/
def Registry.MapsScalars (registry : Registry σ) (func : String) (count : Nat) : Prop :=
  ∃ g : List Value → Except RegistryError Value,
    ∀ args, args.length = count → (∀ v ∈ args, v.isCollection = false) →
      (∀ s, registry.call func args s = (g args, s)) ∧ ∀ v, g args = .ok v → v.isCollection = false

namespace Expr

/-- A body built from parameters and constants by operators that always run both operands, and by
calls of functions of scalars. -/
inductive Elementwise (registry : Registry σ) (params : List String) : Expr → Prop
  | param {name : String} (inside : name ∈ params) : Elementwise registry params (ident name)
  | literal (value : Literal) : Elementwise registry params (literal value)
  | binary {op : BinaryOp} {left right : Expr} (strict : op ≠ .and ∧ op ≠ .or)
    (first : Elementwise registry params left) (second : Elementwise registry params right) :
    Elementwise registry params (binary op left right false)
  | unary {op : UnaryOp} {operand : Expr} (inner : Elementwise registry params operand) :
    Elementwise registry params (unary op operand false)
  | call {func : String} {args : List Expr} (maps : registry.MapsScalars func args.length)
    (each : ∀ arg ∈ args, Elementwise registry params arg) :
    Elementwise registry params (call func args false)

mutual

/-- An elementwise body with every operator and call dotted. -/
def lift : Expr → Expr
  | call func args _ => call func (liftItems args) true
  | binary op left right _ => binary op left.lift right.lift true
  | unary op operand _ => unary op operand.lift true
  | leaf => leaf

/-- Several elementwise expressions with every operator and call dotted. -/
def liftItems : List Expr → List Expr
  | [] => []
  | item :: rest => item.lift :: liftItems rest

end

end Expr

namespace Eval

variable {registry : Registry σ}

/-- What an expression comes to in every row, and what its lift comes to on whole columns. -/
structure RunsAs (registry : Registry σ) (rowEnv : Nat → Env) (columnEnv : Env) (rows : Nat)
    (e : Expr) (o : Outcomes Value) : Prop where
  row : ∀ i < rows, EvalM.Gives (rowEnv i) (eval registry .body e) (o.row i)
  whole : EvalM.Gives columnEnv (eval registry .body e.lift) o.whole
  agree : o.Agree rows
  scalar : ∀ i < rows, ∀ v, o.row i = .ok v → v.isCollection = false
  proper : (∃ name, .ident name ∈ e.nodes) → ∀ v, o.whole = .ok v → v.isCollection = true

namespace RunsAs

variable {rowEnv : Nat → Env} {columnEnv : Env} {rows : Nat} {e : Expr} {args : List Expr}
  {os : List (Outcomes Value)}

theorem items_row (each : List.Forall₂ (RunsAs registry rowEnv columnEnv rows) args os) {i : Nat}
    (below : i < rows) :
    EvalM.Gives (rowEnv i) (evalItems registry .body args) ((Outcomes.items os).row i) := by
  induction each with
  | nil => exact .pure []
  | cons first _ ih =>
      simp only [evalItems, Outcomes.items, List.mapM_cons]
      exact (first.row i below).bind fun v _ => ih.bind fun vs _ => .pure (v :: vs)

theorem items_whole (each : List.Forall₂ (RunsAs registry rowEnv columnEnv rows) args os) :
    EvalM.Gives columnEnv (evalItems registry .body (Expr.liftItems args))
      (Outcomes.items os).whole := by
  induction each with
  | nil => exact .pure []
  | cons first _ ih =>
      simp only [Expr.liftItems, evalItems, Outcomes.items, List.mapM_cons]
      exact first.whole.bind fun v _ => ih.bind fun vs _ => .pure (v :: vs)

/-- In a row the parts come to one scalar each. -/
theorem items_scalar (each : List.Forall₂ (RunsAs registry rowEnv columnEnv rows) args os) {i : Nat}
    (below : i < rows) {vs : List Value} (ran : (Outcomes.items os).row i = .ok vs) :
    vs.length = args.length ∧ ∀ v ∈ vs, v.isCollection = false := by
  have parts := mapM_ok_iff.mp ran
  refine ⟨parts.length_eq.symm.trans each.length_eq.symm, fun v inside => ?_⟩
  obtain ⟨o, there, is⟩ := exists_of_mem_right parts inside
  obtain ⟨arg, -, runs⟩ := exists_of_mem_right each there
  exact runs.scalar i below v is

theorem items_agree (each : List.Forall₂ (RunsAs registry rowEnv columnEnv rows) args os) :
    (Outcomes.items os).AgreeItems rows := by
  refine Outcomes.agreeItems_items fun o there => ?_
  obtain ⟨arg, -, runs⟩ := exists_of_mem_right each there
  exact runs.agree

/-- On whole columns the parts come to one column each. -/
theorem items_column (each : List.Forall₂ (RunsAs registry rowEnv columnEnv rows) args os)
    {vs : List Value} (ran : (Outcomes.items os).whole = .ok vs) :
    vs.length = args.length ∧ ∀ v ∈ vs, v.IsColumn rows := by
  refine ⟨(mapM_ok_iff.mp ran).length_eq.symm.trans each.length_eq.symm, ?_⟩
  have agree := items_agree each
  generalize Outcomes.items os = o at agree ran
  cases agree with
  | error => cases ran
  | ok columns =>
      cases ran
      exact columns

/-- A body runs by row and on columns if it applies a function of scalars to parts that do, and its
lift broadcasts that function. -/
theorem applied (args : List Expr) (plain : List Value → EvalM σ Value) (positive : 0 < rows)
    {op : List Value → EvalM σ Value} {h : List Value → Except EvalError Value}
    (acts : ActsOnScalars args.length op h)
    (same : ∀ vs, vs.length = args.length → (∀ v ∈ vs, v.isCollection = false) → plain vs = op vs)
    (parts : e.children = args) (inner : ∀ name, e ≠ .ident name)
    (row : eval registry .body e = evalItems registry .body args >>= plain)
    (whole : eval registry .body e.lift
      = evalItems registry .body (Expr.liftItems args) >>= broadcast op)
    (each : List.Forall₂ (RunsAs registry rowEnv columnEnv rows) args os) :
    RunsAs registry rowEnv columnEnv rows e
      ⟨fun i => (Outcomes.items os).row i >>= h,
        (Outcomes.items os).whole >>= Outcomes.onColumns rows h⟩ := by
  constructor
  case row =>
    intro i below
    rw [row]
    refine (items_row each below).bind fun vs ran => ?_
    obtain ⟨count, scalars⟩ := items_scalar each below ran
    rw [same vs count scalars]
    exact acts.gives _ vs count scalars
  case whole =>
    rw [whole]
    refine (items_whole each).bind fun vs ran => ?_
    obtain ⟨count, columns⟩ := items_column each ran
    exact acts.broadcast_gives count columns _
  case agree =>
    have agree := items_agree each
    have count {vs : List Value} (ran : (Outcomes.items os).whole = .ok vs) :=
      (items_column each ran).1
    generalize Outcomes.items os = o at agree count
    cases agree with
    | error below failed => exact .error below (by dsimp only; rw [failed]; rfl)
    | ok columns alike =>
        refine acts.onColumns_agree positive (count rfl) columns fun i below => ?_
        dsimp only
        rw [alike i below]
        rfl
  case scalar =>
    intro i below v result
    obtain ⟨vs, ran, result⟩ := ok_of_bind result
    obtain ⟨count, scalars⟩ := items_scalar each below ran
    exact acts.scalar vs v count scalars result
  case proper =>
    rintro ⟨name, inside⟩ v result
    obtain ⟨vs, ran, result⟩ := ok_of_bind result
    obtain rfl | ⟨arg, child, deeper⟩ := Expr.mem_nodes_iff.mp inside
    · exact absurd rfl (inner name)
    · rw [parts] at child
      obtain ⟨o, there, runs⟩ := exists_of_mem_left each child
      obtain ⟨w, used, is⟩ := exists_of_mem_left (mapM_ok_iff.mp ran) there
      exact Outcomes.isCollection_onColumns ⟨w, used, runs.proper ⟨name, deeper⟩ w is⟩ result

/-! ### One rule for each part of a body -/

/-- A parameter is the element of its column in every row. -/
theorem param {name : String} {v : Value} (whole : columnEnv.get? name = some v)
    (column : v.IsColumn rows) (many : v.isCollection = true)
    (each : ∀ i < rows, (rowEnv i).get? name = some (v.atRow i)) :
    RunsAs registry rowEnv columnEnv rows (.ident name) ⟨fun i => .ok (v.atRow i), .ok v⟩ := by
  have found {env : Env} {v : Value} (there : env.get? name = some v) :
      EvalM.Gives env (eval registry .body (.ident name)) (.ok v) := by
    intro s
    simp only [eval, lookup, Bind.bind, ExceptT.bind, ExceptT.mk, StateT.bind,
      ExceptT.bindCont, Parallel.run_get, there]
    rfl
  refine ⟨fun i below => found (each i below), found whole, .ok column fun _ _ => rfl, ?_, ?_⟩
  · intro i below w is
    cases is
    exact column.scalar_atRow below
  · intro _ w is
    cases is
    exact many

/-- A constant is the same in every row. -/
theorem literal (value : Literal) : RunsAs registry rowEnv columnEnv rows (.literal value)
    ⟨fun _ => .ok value.toValue, .ok value.toValue⟩ := by
  have single : value.toValue.isCollection = false := by cases value <;> rfl
  refine ⟨fun _ _ => .pure _, fun _ => rfl,
    .ok (.scalar single) fun i _ => by rw [Value.atRow_of_scalar single], ?_, ?_⟩
  · intro i below w is
    cases is
    exact single
  · rintro ⟨name, inside⟩
    simp [Expr.nodes] at inside

theorem evalItems_singleton (operand : Expr) {β : Type} (f : List Value → EvalM σ β) :
    evalItems registry .body [operand] >>= f = (do f [← eval registry .body operand]) := by
  simp [evalItems]

theorem evalItems_pair (left right : Expr) {β : Type} (f : List Value → EvalM σ β) :
    evalItems registry .body [left, right] >>= f
      = (do f [← eval registry .body left, ← eval registry .body right]) := by
  simp [evalItems]

/-- A binary operator without a dot, applied to its operands. -/
def undottedBinary (op : BinaryOp) : List Value → EvalM σ Value
  | [x, y] => liftM (wholeBinary op x y)
  | args => throw (.arityMismatch 2 args.length)

/-- A unary operator without a dot, applied to its operand. -/
def undottedUnary (op : UnaryOp) : List Value → EvalM σ Value
  | [x] => liftM (wholeUnary op x)
  | args => throw (.arityMismatch 1 args.length)

theorem binary {op : BinaryOp} {left right : Expr} {l r : Outcomes Value} (positive : 0 < rows)
    (strict : op ≠ .and ∧ op ≠ .or) (first : RunsAs registry rowEnv columnEnv rows left l)
    (second : RunsAs registry rowEnv columnEnv rows right r) :
    ∃ o, RunsAs registry rowEnv columnEnv rows (.binary op left right false) o := by
  refine ⟨_, applied [left, right] (undottedBinary op) positive (.binary op) ?_ rfl (by simp) ?_ ?_
    (.cons first (.cons second .nil))⟩
  · intro vs count scalars
    obtain ⟨x, y, rfl⟩ := List.length_eq_two.mp count
    exact congrArg liftM (wholeBinary_of_scalars op (scalars x (by simp)) (scalars y (by simp)))
  · refine Eq.trans ?_ (evalItems_pair left right _).symm
    cases op with
    | and => exact absurd rfl strict.1
    | or => exact absurd rfl strict.2
    | _ => rfl
  · refine Eq.trans ?_ (evalItems_pair left.lift right.lift _).symm
    cases op with
    | and => exact absurd rfl strict.1
    | or => exact absurd rfl strict.2
    | _ => rfl

theorem unary {op : UnaryOp} {operand : Expr} {o : Outcomes Value} (positive : 0 < rows)
    (inner : RunsAs registry rowEnv columnEnv rows operand o) :
    ∃ o, RunsAs registry rowEnv columnEnv rows (.unary op operand false) o := by
  refine ⟨_, applied [operand] (undottedUnary op) positive (.unary op) ?_ rfl (by simp) ?_ ?_
    (.cons inner .nil)⟩
  · intro vs count scalars
    obtain ⟨x, rfl⟩ := List.length_eq_one_iff.mp count
    exact congrArg liftM (wholeUnary_of_scalar op (scalars x (by simp)))
  · exact (evalItems_singleton operand (undottedUnary op)).symm
  · refine Eq.trans ?_ (evalItems_singleton operand.lift _).symm
    rfl

theorem call {func : String} (positive : 0 < rows) (maps : registry.MapsScalars func args.length)
    (each : List.Forall₂ (RunsAs registry rowEnv columnEnv rows) args os) :
    ∃ o, RunsAs registry rowEnv columnEnv rows (.call func args false) o := by
  obtain ⟨g, maps⟩ := maps
  have acts : ActsOnScalars args.length (EvalM.call registry func) fun vs =>
      (g vs).mapError .registry := by
    refine ⟨fun env vs count scalars s => ?_, fun vs v count scalars h => ?_⟩
    · rw [Parallel.run_call, (maps vs count scalars).1]
    · exact (maps vs count scalars).2 v (ok_of_mapError h)
  refine ⟨_, applied args (EvalM.call registry func) positive acts (fun _ _ _ => rfl) rfl (by simp)
    ?_ ?_ each⟩
  · simp [eval]
  · simp [eval, Expr.lift]

theorem exists_items (each : ∀ arg ∈ args, ∃ o, RunsAs registry rowEnv columnEnv rows arg o) :
    ∃ os, List.Forall₂ (RunsAs registry rowEnv columnEnv rows) args os := by
  induction args with
  | nil => exact ⟨[], .nil⟩
  | cons arg rest ih =>
      rw [List.forall_mem_cons] at each
      obtain ⟨o, first⟩ := each.1
      obtain ⟨os, later⟩ := ih each.2
      exact ⟨o :: os, .cons first later⟩

end RunsAs

/-- A body that is elementwise runs by row as its lift runs on whole columns. -/
theorem exists_runsAs {params : List String} {rowEnv : Nat → Env} {columnEnv : Env} {rows : Nat}
    (positive : 0 < rows)
    (given : ∀ name ∈ params, ∃ v, columnEnv.get? name = some v ∧ v.IsColumn rows
      ∧ v.isCollection = true ∧ ∀ i < rows, (rowEnv i).get? name = some (v.atRow i))
    {e : Expr} (body : e.Elementwise registry params) :
    ∃ o, RunsAs registry rowEnv columnEnv rows e o := by
  induction body with
  | param inside =>
      obtain ⟨v, whole, column, many, each⟩ := given _ inside
      exact ⟨_, .param whole column many each⟩
  | literal value => exact ⟨_, .literal value⟩
  | binary strict _ _ ihl ihr =>
      obtain ⟨l, first⟩ := ihl
      obtain ⟨r, second⟩ := ihr
      exact RunsAs.binary positive strict first second
  | unary _ ih =>
      obtain ⟨o, inner⟩ := ih
      exact RunsAs.unary positive inner
  | call maps _ ih =>
      obtain ⟨os, each⟩ := RunsAs.exists_items ih
      exact RunsAs.call positive maps each

end Eval

/-! ### Functions -/

namespace Function

variable {f : Function σ} {columns : List Value} {rows : Nat}

/-- The same function with every operator and call dotted, called once on whole columns. -/
def lifted (f : Function σ) : Function σ :=
  { f with body := f.body.lift, mode := .columnWise }

/-- A parameter has the value of a column in place of the column if all arguments have. -/
theorem get?_env (count : columns.length = f.arity) {name : String} (inside : name ∈ f.params) :
    ∃ v ∈ columns, (f.env columns).get? name = some v
      ∧ ∀ g : Value → Value, (f.env (columns.map g)).get? name = some (g v) := by
  have listed : ((f.params.zip columns).reverse.lookup name).isSome := by
    obtain ⟨i, below, is⟩ := List.getElem_of_mem inside
    have within : i < columns.length := by rwa [count]
    have there : (name, columns[i]) ∈ f.params.zip columns :=
      List.mem_of_getElem? (show (f.params.zip columns)[i]? = some _ by simp [is, below, within])
    exact List.lookup_isSome_iff.mpr ⟨_, List.mem_reverse.mpr there, by simp⟩
  obtain ⟨v, found⟩ := Option.isSome_iff_exists.mp listed
  obtain ⟨before, after, split, -⟩ := List.lookup_eq_some_iff.mp found
  have used : (name, v) ∈ f.params.zip columns := List.mem_reverse.mp (by simp [split])
  have given (args : List Value) : (f.env args).get? name
      = ((f.params.zip args).reverse.lookup name).or (f.captured.reverse.lookup name) := by
    rw [env, Env.ofList, Env.get?, List.reverse_append, List.lookup_append]
  refine ⟨v, (List.of_mem_zip used).2, by rw [given, found]; rfl, fun g => ?_⟩
  rw [given, List.zip_map_right, ← List.map_reverse, lookup_map_snd, found]
  rfl

/-- A call comes to what its body comes to. -/
theorem call_of_gives {args : List Value} {result : Except EvalError Value}
    (count : args.length = f.arity) (runs : f.skips args = false)
    (gives : EvalM.Gives (f.env args) (Eval.eval f.registry .body f.body) result) (s : σ) :
    f.call args s = (result, s) := by
  rw [call, if_neg (not_not.mpr count), if_neg (by rw [runs]; decide)]
  change ((Eval.eval f.registry .body f.body ⟨f.env args, s⟩).1,
    (Eval.eval f.registry .body f.body ⟨f.env args, s⟩).2.state) = _
  rw [gives s]

theorem call_of_arity {args : List Value} (count : args.length ≠ f.arity) (s : σ) :
    f.call args s = (.error (.arityMismatch f.arity args.length), s) := by
  rw [call, if_pos count]
  rfl

/-- Calls without effects come to the column of their results, or to the first failure. -/
theorem callRows_eq {args : Nat → List Value} {g : Nat → Except EvalError Value} {is : List Nat}
    (each : ∀ i ∈ is, ∀ s, f.call (args i) s = (g i, s)) (s : σ) :
    (f.callRows (is.map args)).run s = (is.mapM g, s) := by
  induction is with
  | nil => rfl
  | cons i rest ih =>
      have later := ih fun c inside => each c (List.mem_cons_of_mem i inside)
      simp only [ExceptT.run] at later
      rw [List.mapM_cons, List.map_cons, callRows]
      simp only [ExceptT.run, bind, ExceptT.bind, ExceptT.mk, StateT.bind,
        each i List.mem_cons_self s]
      cases g i with
      | error e => rfl
      | ok v =>
          simp only [ExceptT.bindCont, StateT.bind, bind, later]
          cases rest.mapM g <;> rfl

/-- The arguments of a row are what every column has in that row. -/
theorem rowArguments_eq {lists : List (List Value)} (count : ∀ items ∈ lists, items.length = rows) :
    rowArguments lists rows
      = (List.range rows).map fun i => (lists.map Value.list).map (·.atRow i) := by
  refine List.map_congr_left fun i inside => ?_
  have below := List.mem_range.mp inside
  rw [List.map_map]
  induction lists with
  | nil => rfl
  | cons items rest ih =>
      have there : items[i]? = some ((Value.list items).atRow i) := by
        have within : i < items.length := by rwa [count items List.mem_cons_self]
        rw [Value.atRow, List.getD_eq_getElem?_getD, List.getElem?_eq_getElem within]
        rfl
      have others := ih fun c inside => count c (List.mem_cons_of_mem items inside)
      rw [List.filterMap_cons, there, others]
      rfl

/-- In row mode the function is called for one row after another. -/
theorem apply_lists (mode : f.mode = .rowWise) {lists : List (List Value)}
    (count : ∀ items ∈ lists, items.length = rows) :
    f.apply (lists.map .list) rows = Value.list <$> f.callRows (rowArguments lists rows) := by
  have items : (lists.map Value.list).mapM (columnItems rows) = .ok lists := by
    refine mapM_ok_iff.mpr (List.forall₂_map_left_iff.mpr (List.forall₂_same.mpr ?_))
    exact fun items inside => if_pos (count items inside)
  rw [apply, mode]
  dsimp only
  rw [items, map_eq_pure_bind]
  rfl

/-- Calls without effects come to the column of their results. -/
theorem run_apply (mode : f.mode = .rowWise) {lists : List (List Value)}
    (count : ∀ items ∈ lists, items.length = rows) {g : Nat → Except EvalError Value}
    (each : ∀ i < rows, ∀ s, f.call ((lists.map Value.list).map (·.atRow i)) s = (g i, s)) (s : σ) :
    (f.apply (lists.map .list) rows).run s = (Value.list <$> (List.range rows).mapM g, s) := by
  have rows_are := callRows_eq (fun i inside => each i (List.mem_range.mp inside)) s
  rw [← rowArguments_eq count] at rows_are
  rw [apply_lists mode count, map_eq_pure_bind]
  simp only [ExceptT.run] at rows_are
  simp only [ExceptT.run, bind, ExceptT.bind, ExceptT.mk, StateT.bind, rows_are]
  cases (List.range rows).mapM g <;> rfl

/-- What an elementwise body comes to in every row, and its lift on whole columns. -/
theorem exists_outcomes {lists : List (List Value)} (total : f.passMissing = false)
    (body : f.body.Elementwise f.registry f.params) (used : ∃ name, .ident name ∈ f.body.nodes)
    (positive : 0 < rows)
    (shaped : ∀ items ∈ lists, items.length = rows ∧ ∀ v ∈ items, v.isCollection = false) :
    ∃ o : Outcomes Value, o.Agree rows ∧ (∀ v, o.whole = .ok v → v.isCollection = true)
      ∧ (∀ i < rows, ∀ s, f.call ((lists.map Value.list).map (·.atRow i)) s = (o.row i, s))
      ∧ ∀ s, f.lifted.call (lists.map .list) s = (o.whole, s) := by
  by_cases count : (lists.map Value.list).length = f.arity
  · have runs : ∃ o, Eval.RunsAs f.registry
        (fun i => f.env ((lists.map Value.list).map (·.atRow i)))
        (f.env (lists.map Value.list)) rows f.body o := by
      refine Eval.exists_runsAs positive (fun name inside => ?_) body
      obtain ⟨v, there, found, each⟩ := get?_env count inside
      obtain ⟨items, here, rfl⟩ := List.mem_map.mp there
      obtain ⟨length, scalars⟩ := shaped items here
      exact ⟨.list items, found, .list length scalars, rfl, fun i _ => each (·.atRow i)⟩
    obtain ⟨o, runs⟩ := runs
    refine ⟨o, runs.agree, runs.proper used, fun i below => ?_, ?_⟩
    · exact call_of_gives (by simpa using count) (by simp [skips, total]) (runs.row i below)
    · exact call_of_gives (f := f.lifted) count (by simp [skips, lifted]) runs.whole
  · let failed : Except EvalError Value := .error (.arityMismatch f.arity lists.length)
    refine ⟨⟨fun _ => failed, failed⟩, .error positive rfl, ?_, fun i _ s => ?_, fun s => ?_⟩
    · rintro v ⟨⟩
    · rw [call_of_arity (by simpa using count)]
      simp [failed]
    · rw [call_of_arity (f := f.lifted) count]
      simp [failed, lifted, arity]

/-- In row mode an elementwise body succeeds exactly where its lift succeeds on the whole columns,
and then both come to the same list. -/
theorem apply_eq_lifted (mode : f.mode = .rowWise) (total : f.passMissing = false)
    (body : f.body.Elementwise f.registry f.params)
    (used : ∃ name, .ident name ∈ f.body.nodes) (positive : 0 < rows)
    (whole : ∀ c ∈ columns, ∃ items, c = .list items ∧ items.length = rows
      ∧ ∀ v ∈ items, v.isCollection = false) (s : σ) :
    (∀ v, ((f.apply columns rows).run s).1 = .ok v ↔ (f.lifted.call columns s).1 = .ok v)
      ∧ ∀ v, ((f.apply columns rows).run s).1 = .ok v →
        ∃ items, v = .list items ∧ items.length = rows := by
  obtain ⟨lists, rfl⟩ : ∃ lists : List (List Value), lists.map Value.list = columns := by
    refine ⟨columns.map Value.elements, ?_⟩
    rw [List.map_map]
    refine (List.map_congr_left fun c inside => ?_).trans columns.map_id
    obtain ⟨items, rfl, -⟩ := whole c inside
    rfl
  have shaped : ∀ items ∈ lists, items.length = rows ∧ ∀ v ∈ items, v.isCollection = false := by
    intro items inside
    obtain ⟨_, same, shape⟩ := whole _ (List.mem_map_of_mem inside)
    cases same
    exact shape
  obtain ⟨o, agree, proper, each, all⟩ := exists_outcomes total body used positive shaped
  obtain ⟨alike, lists_are⟩ := agree.list proper
  rw [run_apply mode (fun items inside => (shaped items inside).1) each, all]
  exact ⟨alike, fun v result => lists_are v ((alike v).mp result)⟩

/-- In both ways `abs(a) + b` comes to the list of `5` and the missing value. -/
theorem absolute_sum_by_row : ∃ f : Function Unit,
    f.body = .binary .add (.call "abs" [.ident "a"] false) (.ident "b") false
      ∧ ((f.apply [.list [.int (-2), .missing], .list [.int 3, .int 4]] 2).run ()).1
        = .ok (.list [.int 5, .missing])
      ∧ (f.lifted.call [.list [.int (-2), .missing], .list [.int 3, .int 4]] ()).1
        = .ok (.list [.int 5, .missing]) := by
  let registry : Registry Unit :=
    (Registry.empty "1").register (PureFunction.passing "abs" Builtin.absolute).toOverload
  let body : Expr := .binary .add (.call "abs" [.ident "a"] false) (.ident "b") false
  let f : Function Unit := ⟨["a", "b"], body, .rowWise, false, [], registry⟩
  have maps : registry.MapsScalars "abs" 1 := by
    refine ⟨fun args => (registry.call "abs" args ()).1, fun args count _ => ⟨fun _ => rfl, ?_⟩⟩
    intro v result
    obtain ⟨x, rfl⟩ := List.length_eq_one_iff.mp count
    cases x with
    | int i =>
        have called : registry.call "abs" [.int i] ()
            = ((Builtin.absolute (.int i)).mapError (.function "abs"), ()) :=
          Registry.call_of_pure (f := .passing "abs" Builtin.absolute) rfl ()
        have given : Builtin.absolute (.int i) = .ok v :=
          ok_of_mapError ((congrArg Prod.fst called).symm.trans result)
        simp only [Builtin.absolute] at given
        split at given <;> cases given
        rfl
    | _ => cases result <;> rfl
  have elementwise : body.Elementwise registry ["a", "b"] := by
    refine .binary ⟨by decide, by decide⟩ (.call maps fun arg inside => ?_) (.param (by decide))
    rw [List.mem_singleton.mp inside]
    exact .param (by decide)
  have used : ∃ name, .ident name ∈ body.nodes :=
    ⟨"a", by simp [body, Expr.nodes, Expr.nodesOfItems]⟩
  let columns : List Value := [.list [.int (-2), .missing], .list [.int 3, .int 4]]
  have whole : ∀ c ∈ columns, ∃ items, c = .list items ∧ items.length = 2
      ∧ ∀ v ∈ items, v.isCollection = false := by simp [columns, Value.isCollection]
  have byRow : ((f.apply columns 2).run ()).1 = .ok (.list [.int 5, .missing]) := rfl
  obtain ⟨alike, -⟩ :=
    apply_eq_lifted (f := f) rfl rfl elementwise used (by decide) whole ()
  exact ⟨f, rfl, byRow, (alike _).mp byRow⟩

end Function

end TablePlan
