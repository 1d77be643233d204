import TablePlan.Proofs.Eval.Operator
import TablePlan.Proofs.Eval.Parallel
import TablePlan.Proofs.Indices

/-!
# Broadcasting by row

A function of scalars that is broadcast over columns is applied in one row after another. A column
is a list with one scalar for every row, or a single scalar that stands for itself in every row; so
is the result.
-/

namespace TablePlan

variable {σ α β : Type}

/-! ### Effects -/

namespace EvalM

/-- The computation comes to a result in every state and changes neither variables nor state. -/
def Gives (env : Env) (x : EvalM σ α) (result : Except EvalError α) : Prop :=
  ∀ s, x ⟨env, s⟩ = (result, ⟨env, s⟩)

namespace Gives

variable {env : Env}

theorem pure (a : α) : Gives env (pure a : EvalM σ α) (.ok a) := fun _ => rfl

theorem lift (r : Except EvalError α) : Gives env (liftM r : EvalM σ α) r := by
  cases r <;> exact fun _ => rfl

theorem bind {x : EvalM σ α} {f : α → EvalM σ β} {r : Except EvalError α}
    {q : α → Except EvalError β} (first : Gives env x r)
    (second : ∀ a, r = .ok a → Gives env (f a) (q a)) : Gives env (x >>= f) (r >>= q) := by
  intro s
  simp only [Bind.bind, ExceptT.bind, ExceptT.mk, StateT.bind, first s]
  cases r with
  | error e => rfl
  | ok a => exact second a rfl s

theorem mapM {f : α → EvalM σ β} {g : α → Except EvalError β} {as : List α}
    (each : ∀ a ∈ as, Gives env (f a) (g a)) : Gives env (as.mapM f) (as.mapM g) := by
  induction as with
  | nil => exact pure []
  | cons a rest ih =>
      rw [List.mapM_cons, List.mapM_cons]
      have later := ih fun c inside => each c (List.mem_cons_of_mem a inside)
      exact (each a List.mem_cons_self).bind fun b _ => later.bind fun bs _ => pure (b :: bs)

theorem broadcast {f : List Value → EvalM σ Value} {g : List Value → Except EvalError Value}
    (each : ∀ args, Gives env (f args) (g args)) (args : List Value) :
    Gives env (Eval.broadcast f args) (Eval.broadcast g args) := by
  simp only [Eval.broadcast]
  split
  · exact fun _ => rfl
  · exact each args
  · split
    · exact fun _ => rfl
    · refine bind (mapM fun index _ => ?_) fun results _ => pure _
      split
      · exact each _
      · exact fun _ => rfl

end Gives

end EvalM

/-! ### Columns -/

namespace Value

/-- The value in one row, counted from zero; a scalar is the same in every row. -/
def atRow (v : Value) (row : Nat) : Value :=
  match v with
  | list items => items.getD row missing
  | scalar => scalar

/-- A list of scalars, one for each of a number of rows, or a single scalar for all of them. -/
inductive IsColumn (rows : Nat) : Value → Prop
  | list {items : List Value} (count : items.length = rows)
    (scalars : ∀ v ∈ items, v.isCollection = false) : IsColumn rows (list items)
  | scalar {v : Value} (single : v.isCollection = false) : IsColumn rows v

theorem atRow_of_scalar {v : Value} (single : v.isCollection = false) (row : Nat) :
    v.atRow row = v := by
  cases v <;> first | rfl | cases single

theorem shape_of_scalar {v : Value} (single : v.isCollection = false) : v.shape = [] := by
  cases v <;> first | rfl | cases single

namespace IsColumn

variable {rows : Nat} {v : Value}

theorem scalar_atRow (column : v.IsColumn rows) {row : Nat} (inside : row < rows) :
    (v.atRow row).isCollection = false := by
  cases column with
  | @list items count scalars =>
      rw [atRow, List.getD_eq_getElem?_getD, List.getElem?_eq_getElem (by omega)]
      exact scalars _ (List.getElem_mem _)
  | scalar single => rwa [atRow_of_scalar single]

/-- Broadcasting takes from a column the value in the row. -/
theorem alignedElement?_eq (column : v.IsColumn rows) {row : Nat} (inside : row < rows) :
    Eval.alignedElement? v [row] = some (v.atRow row) := by
  cases column with
  | @list items count scalars =>
      have place : Shape.operandPosition [items.length] [row] = row := by
        simp only [Shape.operandPosition]
        split <;> omega
      have there : row < items.length := by omega
      change items[Shape.operandPosition [items.length] [row]]? = _
      rw [place, atRow, List.getD_eq_getElem?_getD, List.getElem?_eq_getElem there]
      rfl
  | scalar single => rw [Eval.alignedElement?, single, atRow_of_scalar single, if_neg (by decide)]

end IsColumn

/-- Scalars have the shape of a scalar in common. -/
theorem common?_scalars {vs : List Value} (scalars : ∀ v ∈ vs, v.isCollection = false) :
    Shape.common? (vs.map shape) = some [] := by
  rw [Shape.common?_eq_nil_iff, List.forall_mem_map]
  intro v there
  exact shape_of_scalar (scalars v there)

/-- Columns of which one is a list have the shape of a list in common. -/
theorem common?_columns {rows : Nat} {vs : List Value} (columns : ∀ v ∈ vs, v.IsColumn rows)
    (proper : ∃ v ∈ vs, v.isCollection = true) : Shape.common? (vs.map shape) = some [rows] := by
  refine Shape.common?_iff.mpr ⟨fun a inside => ?_, fun t above => ?_⟩
  · obtain ⟨v, there, rfl⟩ := List.mem_map.mp inside
    cases columns v there with
    | list count scalars =>
        rw [shape_list, count]
        exact Shape.stretches_refl _
    | scalar single =>
        rw [shape_of_scalar single]
        trivial
  · obtain ⟨v, there, many⟩ := proper
    cases columns v there with
    | list count scalars =>
        have bound := above _ (List.mem_map_of_mem there)
        rwa [shape_list, count] at bound
    | scalar single => exact absurd many (by rw [single]; decide)

end Value

/-! ### Values by row and on whole columns -/

/-- The result in every row and the result on whole columns. -/
structure Outcomes (α : Type) where
  row : Nat → Except EvalError α
  whole : Except EvalError α

namespace Outcomes

/-- The result on whole columns is the column of the results in the rows, or both ways fail. -/
inductive Agree (rows : Nat) : Outcomes Value → Prop
  | ok {row : Nat → Except EvalError Value} {v : Value} (column : v.IsColumn rows)
    (each : ∀ i < rows, row i = .ok (v.atRow i)) : Agree rows ⟨row, .ok v⟩
  | error {row : Nat → Except EvalError Value} {e e' : EvalError} {i : Nat} (below : i < rows)
    (failed : row i = .error e') : Agree rows ⟨row, .error e⟩

/-- A result on whole columns that is no scalar is the list of the results in the rows. -/
theorem Agree.list {rows : Nat} {o : Outcomes Value} (agree : o.Agree rows)
    (proper : ∀ v, o.whole = .ok v → v.isCollection = true) :
    (∀ v, Value.list <$> (List.range rows).mapM o.row = .ok v ↔ o.whole = .ok v)
      ∧ ∀ v, o.whole = .ok v → ∃ items, v = .list items ∧ items.length = rows := by
  cases agree with
  | @error row e e' i below failed =>
      refine ⟨fun v => ⟨fun result => ?_, fun result => nomatch result⟩, by rintro v ⟨⟩⟩
      cases ran : (List.range rows).mapM row with
      | error e =>
          dsimp only at result
          rw [ran] at result
          cases result
      | ok vs =>
          obtain ⟨v, -, is⟩ := exists_of_mem_left (mapM_ok_iff.mp ran) (List.mem_range.mpr below)
          rw [failed] at is
          cases is
  | @ok row v column each =>
      cases column with
      | scalar single => exact absurd (proper _ rfl) (by rw [single]; decide)
      | @list items count scalars =>
          have ran : (List.range rows).mapM row = .ok items := by
            refine mapM_ok_iff.mpr (List.forall₂_iff_get.mpr ⟨by simpa using count.symm, ?_⟩)
            intro i lower upper
            have below : i < rows := by simpa using lower
            simpa [Value.atRow, List.getElem?_eq_getElem upper] using each i below
          refine ⟨fun v => ?_, fun v result => ?_⟩
          · dsimp only
            rw [ran]
            rfl
          · cases result
            exact ⟨items, rfl, count⟩

/-- The same of the results of several expressions. -/
inductive AgreeItems (rows : Nat) : Outcomes (List Value) → Prop
  | ok {row : Nat → Except EvalError (List Value)} {vs : List Value}
    (columns : ∀ v ∈ vs, v.IsColumn rows)
    (each : ∀ i < rows, row i = .ok (vs.map (·.atRow i))) : AgreeItems rows ⟨row, .ok vs⟩
  | error {row : Nat → Except EvalError (List Value)} {e e' : EvalError} {i : Nat}
    (below : i < rows) (failed : row i = .error e') : AgreeItems rows ⟨row, .error e⟩

/-- The results of several expressions one after another. -/
def items (os : List (Outcomes Value)) : Outcomes (List Value) :=
  ⟨fun i => os.mapM (·.row i), os.mapM (·.whole)⟩

theorem agreeItems_items {rows : Nat} {os : List (Outcomes Value)}
    (each : ∀ o ∈ os, o.Agree rows) : AgreeItems rows (items os) := by
  induction os with
  | nil => exact .ok (by simp) fun i _ => rfl
  | cons o rest ih =>
      have later := ih fun c inside => each c (List.mem_cons_of_mem o inside)
      simp only [items, List.mapM_cons] at later ⊢
      generalize rest.mapM (·.whole) = others at later ⊢
      cases each o List.mem_cons_self with
      | error below failed => exact .error below (by dsimp only; rw [failed]; rfl)
      | @ok row v column same =>
          cases later with
          | error below failed =>
              dsimp only at failed
              exact .error below (by dsimp only; rw [same _ below, failed]; rfl)
          | ok columns alike =>
              refine .ok (List.forall_mem_cons.mpr ⟨column, columns⟩) fun i below => ?_
              dsimp only at alike ⊢
              rw [same i below, alike i below]
              rfl

/-- A function of scalars on columns: in every row if one of them is a list. -/
def onColumns (rows : Nat) (h : List Value → Except EvalError Value) (vs : List Value) :
    Except EvalError Value :=
  if vs.any Value.isCollection then
    Value.list <$> (List.range rows).mapM fun i => h (vs.map (·.atRow i))
  else h vs

/-- On columns of which one is a list the result is a list. -/
theorem isCollection_onColumns {rows : Nat} {h : List Value → Except EvalError Value}
    {vs : List Value} {v : Value} (proper : ∃ w ∈ vs, w.isCollection = true)
    (result : onColumns rows h vs = .ok v) : v.isCollection = true := by
  rw [onColumns, if_pos (List.any_eq_true.mpr proper)] at result
  cases ran : (List.range rows).mapM fun i => h (vs.map (·.atRow i)) with
  | error e =>
      rw [ran] at result
      cases result
  | ok results =>
      rw [ran] at result
      cases result
      rfl

end Outcomes

/-! ### Functions of scalars -/

/-- On a number of scalars a computation comes to the results of a function, which are scalars, and
changes nothing. -/
structure ActsOnScalars (count : Nat) (op : List Value → EvalM σ Value)
    (h : List Value → Except EvalError Value) : Prop where
  gives : ∀ env args, args.length = count → (∀ v ∈ args, v.isCollection = false) →
    EvalM.Gives env (op args) (h args)
  scalar : ∀ args v, args.length = count → (∀ v ∈ args, v.isCollection = false) →
    h args = .ok v → v.isCollection = false

namespace ActsOnScalars

variable {count rows : Nat} {op : List Value → EvalM σ Value}
  {h : List Value → Except EvalError Value} {vs : List Value}

theorem scalars_atRow (columns : ∀ v ∈ vs, v.IsColumn rows) {i : Nat} (below : i < rows) :
    ∀ v ∈ vs.map (·.atRow i), v.isCollection = false := by
  intro v inside
  obtain ⟨w, there, rfl⟩ := List.mem_map.mp inside
  exact (columns w there).scalar_atRow below

/-- A function of scalars is broadcast over columns row by row. -/
theorem broadcast_gives (acts : ActsOnScalars count op h) (known : vs.length = count)
    (columns : ∀ v ∈ vs, v.IsColumn rows) (env : Env) :
    EvalM.Gives env (Eval.broadcast op vs)
      (Outcomes.onColumns rows h vs) := by
  by_cases proper : ∃ v ∈ vs, v.isCollection = true
  · rw [Outcomes.onColumns, if_pos (List.any_eq_true.mpr proper), Eval.broadcast]
    simp only [Value.common?_columns columns proper, Shape.enumerate?_of_fits (Shape.fits_vector rows)]
    have indices : Shape.indices [rows] = (List.range rows).map ([·]) := by
      simp [Shape.indices]
    rw [indices, List.mapM_map]
    refine EvalM.Gives.bind (EvalM.Gives.mapM fun i inside => ?_) fun results _ => .pure _
    have below := List.mem_range.mp inside
    have aligned : vs.mapM (fun arg => Eval.alignedElement? arg [i])
        = some (vs.map (·.atRow i)) := by
      refine mapM_some_iff.mpr (List.forall₂_map_right_iff.mpr (List.forall₂_same.mpr ?_))
      exact fun v there => (columns v there).alignedElement?_eq below
    simp only [Function.comp_apply, aligned]
    exact acts.gives env _ (by simpa using known) (scalars_atRow columns below)
  · have scalars : ∀ v ∈ vs, v.isCollection = false := fun v inside =>
      Bool.eq_false_iff.mpr fun many => proper ⟨v, inside, many⟩
    rw [Outcomes.onColumns, if_neg fun any => proper (List.any_eq_true.mp any), Eval.broadcast]
    simp only [Value.common?_scalars scalars]
    exact acts.gives env vs known scalars

/-- Applying a function of scalars in every row agrees with broadcasting it over columns. -/
theorem onColumns_agree (acts : ActsOnScalars count op h) (positive : 0 < rows)
    (known : vs.length = count) (columns : ∀ v ∈ vs, v.IsColumn rows)
    {row : Nat → Except EvalError Value} (each : ∀ i < rows, row i = h (vs.map (·.atRow i))) :
    Outcomes.Agree rows ⟨row, Outcomes.onColumns rows h vs⟩ := by
  by_cases proper : vs.any Value.isCollection = true
  · rw [Outcomes.onColumns, if_pos proper]
    cases ran : (List.range rows).mapM fun i => h (vs.map (·.atRow i)) with
    | error e =>
        obtain ⟨i, inside, failed⟩ := exists_error_of_mapM ran
        have below := List.mem_range.mp inside
        exact .error below (by rw [each i below, failed])
    | ok results =>
        have results_are := mapM_ok_iff.mp ran
        have count := results_are.length_eq
        rw [List.length_range] at count
        have result (i : Nat) (below : i < results.length) :
            h (vs.map (·.atRow i)) = .ok results[i] := by
          simpa using (List.forall₂_iff_get.mp results_are).2 i (by simpa [count] using below) below
        refine .ok (.list count.symm fun v inside => ?_) fun i below => ?_
        · obtain ⟨i, below, rfl⟩ := List.getElem_of_mem inside
          refine acts.scalar _ _ (by simpa using known) (scalars_atRow columns ?_) (result i below)
          omega
        · rw [each i below]
          rw [count] at below
          rw [result i below, Value.atRow, List.getD_eq_getElem?_getD,
            List.getElem?_eq_getElem below]
          rfl
  · have scalars : ∀ v ∈ vs, v.isCollection = false := fun v inside =>
      Bool.eq_false_iff.mpr fun many => proper (List.any_eq_true.mpr ⟨v, inside, many⟩)
    have constant (i : Nat) : vs.map (·.atRow i) = vs :=
      (List.map_congr_left fun v inside => Value.atRow_of_scalar (scalars v inside) i).trans
        vs.map_id
    rw [Outcomes.onColumns, if_neg proper]
    cases result : h vs with
    | error e => exact .error positive (by rw [each 0 positive, constant, result])
    | ok v =>
        have single := acts.scalar vs v known scalars result
        refine .ok (.scalar single) fun i below => ?_
        rw [each i below, constant, result, Value.atRow_of_scalar single]

/-- An operator between two scalars. -/
theorem binary (op : BinaryOp) :
    ActsOnScalars (σ := σ) 2
      (fun
        | [x, y] => liftM (Eval.binary op x y)
        | args => throw (.arityMismatch 2 args.length))
      fun
        | [x, y] => Eval.binary op x y
        | args => .error (.arityMismatch 2 args.length) where
  gives env args _ _ := by
    split
    · exact .lift _
    · exact fun _ => rfl
  scalar args v _ _ h := by
    split at h
    · exact (Eval.atomic_of_binary h).scalar
    · cases h

/-- An operator before a scalar. -/
theorem unary (op : UnaryOp) :
    ActsOnScalars (σ := σ) 1
      (fun
        | [x] => liftM (Eval.unary op x)
        | args => throw (.arityMismatch 1 args.length))
      fun
        | [x] => Eval.unary op x
        | args => .error (.arityMismatch 1 args.length) where
  gives env args _ _ := by
    split
    · exact .lift _
    · exact fun _ => rfl
  scalar args v _ _ h := by
    split at h
    · exact (Eval.atomic_of_unary h).scalar
    · cases h

end ActsOnScalars

end TablePlan
