import TablePlan.Proofs.Eval.Safe

/-!
# Evaluation in bounds

From well-formed variables an evaluation with safe functions comes to a well-formed value, and every
access to an element on the way finds one.
-/

namespace TablePlan

variable {σ α β : Type}

/-! ### Parts of values -/

namespace Eval

open EvalM EvalError

theorem positions_lt {indices : List Value} {shape : Shape} {places : List Nat}
    (count : indices.length = shape.length) (h : positions indices shape = .ok places) :
    List.Forall₂ (fun i n => i < n) places shape := by
  induction indices generalizing shape places with
  | nil =>
      obtain rfl := List.eq_nil_of_length_eq_zero count.symm
      cases h
      exact .nil
  | cons i rest ih =>
      cases shape with
      | nil => cases count
      | cons size sizes =>
          obtain ⟨place, first, h⟩ := ok_of_bind h
          obtain ⟨others, later, h⟩ := ok_of_bind h
          cases h
          exact .cons (lt_of_position first) (ih (Nat.succ.inj count) later)

/-- What an index takes from a well-formed value is well formed. -/
theorem wellFormed_of_index {base v : Value} {indices : List Value} (whole : base.WellFormed)
    (h : index base indices = .ok v) : v.WellFormed := by
  have element {items : List Value} {i : Value} (each : ∀ e ∈ items, e.WellFormed)
      (h : elementOf items i = .ok v) : v.WellFormed := by
    obtain ⟨place, -, h⟩ := ok_of_bind h
    split at h <;> cases h
    exact each v (List.mem_of_getElem? ‹_›)
  unfold index at h
  split at h
  · split at h <;> cases h
    exact Env.wellFormed_of_lookup whole.of_record ‹_›
  · refine element (fun e inside => ?_) h
    obtain ⟨c, -, rfl⟩ := List.mem_map.mp inside
    exact .atomic trivial
  · exact element whole.of_list h
  · exact element whole.of_grid.2 h
  · split at h
    · obtain ⟨place, -, h⟩ := ok_of_bind h
      split at h <;> cases h
      rename_i found
      obtain ⟨i, -, there⟩ := Option.bind_eq_some_iff.mp found
      exact whole.of_grid.2 v (List.mem_of_getElem? there)
    · cases h
  · cases h

/-- A well-formed value lacks no element that an index means. -/
theorem sound_of_index {base : Value} {indices : List Value} {e : EvalError}
    (whole : base.WellFormed) (h : index base indices = .error e) : e.Sound := by
  obtain operands | ⟨rfl, g, place, rfl, count, found, lacks⟩ := ofOperands_of_index h
  · exact operands.sound
  · obtain ⟨v, -, there⟩ := whole.of_grid.1.exists_get? (positions_lt count found)
    rw [lacks] at there
    cases there

theorem wellFormed_of_destructured {v : Value} {elements : List Value} (whole : v.WellFormed)
    (h : destructured v = .ok elements) : ∀ e ∈ elements, e.WellFormed := by
  unfold destructured at h
  split at h <;> cases h
  · intro e inside
    obtain ⟨c, -, rfl⟩ := List.mem_map.mp inside
    exact .atomic trivial
  · exact whole.of_list
  · exact whole.of_grid.2

/-- The names of columns are as many as their shape asks for. -/
theorem wellFormed_of_columnNames {schema : Schema} {v names : Value}
    (h : columnNames schema v = .ok names) : names.WellFormed := by
  obtain ⟨spec, -, h⟩ := ok_of_bind h
  obtain ⟨selection, resolved, h⟩ := ok_of_bind h
  cases h
  obtain ⟨-, count⟩ := ColumnSpec.counted_of_resolve (ok_of_mapError resolved)
  refine .ofShape (by rw [List.length_map, count]) fun e inside => ?_
  obtain ⟨name, -, rfl⟩ := List.mem_map.mp inside
  exact .atomic trivial

theorem sound_spec {cause : SpecError} (h : cause.Justified) : (spec cause).Sound where
  inBounds := by rintro ⟨⟩
  exceeded := h

theorem sound_of_columnNames {schema : Schema} {v : Value} {e : EvalError}
    (h : columnNames schema v = .error e) : e.Sound := by
  obtain first | ⟨s, -, h⟩ := error_of_bind h
  · obtain ⟨cause, failed, rfl⟩ := error_of_mapError first
    exact sound_spec (Value.justified_of_toSpec failed)
  · obtain second | ⟨selection, -, h⟩ := error_of_bind h
    · obtain ⟨cause, failed, rfl⟩ := error_of_mapError second
      exact sound_spec (ColumnSpec.justified_of_resolve failed)
    · cases h

/-! ### Evaluation -/

theorem lookup_safe {setting : Setting} (caller : setting.WellFormed) (name : String) :
    Safe Value.WellFormed (lookup setting name : EvalM σ Value) := by
  intro m vars
  simp only [lookup, ensures_bind, ensures_get]
  split
  · exact ⟨vars.get? ‹_›, vars⟩
  · split
    · exact InBounds.sound (by rintro ⟨⟩) rfl
    · rename_i scope visible
      split
      · exact ⟨(caller scope visible).get? ‹_›, vars⟩
      · split
        · exact ⟨.spec _, vars⟩
        · exact InBounds.sound (by rintro ⟨⟩) rfl

theorem column_safe (setting : Setting) (ident : ColumnIdent) :
    Safe Value.WellFormed (liftM (column setting ident) : EvalM σ Value) := by
  cases setting with
  | body => exact .throw (InBounds.sound (by rintro ⟨⟩) rfl)
  | selector scope => exact .pure (.spec _)
  | sink scope schema =>
      cases ident with
      | name n => exact .pure (.atomic trivial)
      | position i =>
          simp only [column]
          cases result : (ColumnIdent.position i).toSpec.resolveSingle schema with
          | ok name => exact .pure (.atomic trivial)
          | error cause => exact .throw (sound_spec (ColumnSpec.justified_of_resolveSingle result))

/-- An expression is refused as it is, and not for an element that it lacks. -/
theorem safe_unsupported {P : α → Prop} {what : String} (other : what.toList.head? ≠ some 'g') :
    Safe P (throw (.unsupported what) : EvalM σ α) := by
  refine .throw (InBounds.sound (fun same => ?_) rfl)
  cases same
  exact other rfl

theorem assignItems_safe {items : List Expr}
    (each : ∀ item ∈ items, ∀ v : Value, v.WellFormed →
      Safe (fun _ => True) (assign item v : EvalM σ Unit))
    (fixed position : Nat) {elements : List Value} (whole : ∀ e ∈ elements, e.WellFormed) :
    Safe (fun _ => True) (assignItems fixed position items elements : EvalM σ Unit) := by
  induction items generalizing position elements with
  | nil => exact .pure trivial
  | cons target rest ih =>
      by_cases splat : ∃ name, target = .splat name
      · obtain ⟨name, rfl⟩ := splat
        unfold assignItems
        split
        · exact .push name (.list whole)
        · exact safe_unsupported (by simp)
      · cases elements with
        | nil =>
            rw [assignItems]
            · exact .throw (InBounds.sound (by rintro ⟨⟩) rfl)
            · exact fun name is => splat ⟨name, is⟩
        | cons v elements =>
            rw [List.forall_mem_cons] at whole
            rw [assignItems]
            · exact (each target (by simp) v whole.1).bind fun _ _ =>
                ih (fun item inside => each item (by simp [inside])) (position + 1) whole.2
            · exact fun name is => splat ⟨name, is⟩

theorem assign_safe (target : Expr) {v : Value} (whole : v.WellFormed) :
    Safe (fun _ => True) (assign target v : EvalM σ Unit) := by
  induction target using Expr.childInduction generalizing v with
  | step target ih =>
      cases target with
      | ident name => exact .push name whole
      | tuple items =>
          rw [assign]
          refine (Safe.lift (fun elements => wellFormed_of_destructured whole) fun e h =>
            (ofOperands_of_destructured h).sound).bind fun elements each => ?_
          dsimp only
          split
          · exact .throw (InBounds.sound (by rintro ⟨⟩) rfl)
          · exact assignItems_safe (fun item inside v => ih item inside) _ 0 each
      | _ =>
          rw [assign]
          · exact safe_unsupported (by simp)
          all_goals simp

section

variable {registry : Registry σ} {setting : Setting}

theorem evalItems_safe {items : List Expr}
    (each : ∀ item ∈ items, Safe Value.WellFormed (eval registry setting item)) :
    Safe (fun vs => ∀ v ∈ vs, v.WellFormed) (evalItems registry setting items) := by
  induction items with
  | nil => exact .pure (List.forall_mem_nil _)
  | cons item rest ih =>
      rw [List.forall_mem_cons] at each
      rw [evalItems]
      exact each.1.bind fun v first => (ih each.2).bind fun vs later =>
        .pure (List.forall_mem_cons.mpr ⟨first, later⟩)

theorem evalRows_safe {rows : List (List Expr)}
    (each : ∀ item ∈ rows.flatten, Safe Value.WellFormed (eval registry setting item)) :
    Safe (fun vss => ∀ vs ∈ vss, ∀ v ∈ vs, v.WellFormed) (evalRows registry setting rows) := by
  induction rows with
  | nil => exact .pure (List.forall_mem_nil _)
  | cons row rest ih =>
      rw [List.flatten_cons, List.forall_mem_append] at each
      rw [evalRows]
      exact (evalItems_safe each.1).bind fun vs first => (ih each.2).bind fun vss later =>
        .pure (List.forall_mem_cons.mpr ⟨first, later⟩)

theorem evalFields_safe {fields : List (String × Expr)}
    (each : ∀ item ∈ fields.map Prod.snd, Safe Value.WellFormed (eval registry setting item)) :
    Safe (fun vs => ∀ v ∈ vs, v.2.WellFormed) (evalFields registry setting fields) := by
  induction fields with
  | nil => exact .pure (List.forall_mem_nil _)
  | cons field rest ih =>
      rw [List.map_cons, List.forall_mem_cons] at each
      rw [evalFields]
      exact each.1.bind fun v first => (ih each.2).bind fun vs later =>
        .pure (List.forall_mem_cons.mpr ⟨first, later⟩)

theorem evalStatements_safe {items : List Expr} {last : Value} (whole : last.WellFormed)
    (each : ∀ item ∈ items, Safe Value.WellFormed (eval registry setting item)) :
    Safe Value.WellFormed (evalStatements registry setting last items) := by
  induction items generalizing last with
  | nil => exact .pure whole
  | cons item rest ih =>
      rw [List.forall_mem_cons] at each
      rw [evalStatements]
      exact each.1.bind fun v first => ih first each.2

theorem condition_safe (v : Value) : Safe (fun _ => True) (liftM (condition v) : EvalM σ Bool) :=
  .lift (fun _ _ => trivial) fun _ h => (ofOperands_of_condition h).sound

/-- What an operator before an evaluated operand does. -/
theorem unaryStep_safe (op : UnaryOp) (dotted : Bool) {v : Value} (whole : v.WellFormed) :
    Safe Value.WellFormed
      (if dotted then
        broadcast (fun
          | [x] => liftM (unary op x)
          | args => throw (.arityMismatch 1 args.length)) [v]
      else liftM (wholeUnary op v) : EvalM σ Value) := by
  split
  · refine .broadcast (by simpa using whole) fun vs count _ => ?_
    obtain ⟨x, rfl⟩ := List.length_eq_one_iff.mp count
    exact .lift (fun _ h => .atomic (atomic_of_unary h)) fun _ h => (ofOperands_of_unary h).sound
  · exact .lift (fun _ h => .atomic (atomic_of_wholeUnary h)) fun _ h =>
      (ofOperands_of_wholeUnary h).sound

/-- What an operator between evaluated operands does. -/
theorem binaryStep_safe (op : BinaryOp) (dotted : Bool) {left right : Value}
    (first : left.WellFormed) (second : right.WellFormed) :
    Safe Value.WellFormed
      (if dotted then
        broadcast (fun
          | [x, y] => liftM (binary op x y)
          | args => throw (.arityMismatch 2 args.length)) [left, right]
      else liftM (wholeBinary op left right) : EvalM σ Value) := by
  split
  · refine .broadcast (by simpa using ⟨first, second⟩) fun vs count _ => ?_
    obtain ⟨x, y, rfl⟩ := List.length_eq_two.mp count
    exact .lift (fun _ h => .atomic (atomic_of_binary h)) fun _ h =>
      (ofOperands_of_binary h).sound
  · exact .lift (fun _ h => .atomic (atomic_of_wholeBinary h)) fun _ h =>
      (ofOperands_of_wholeBinary h).sound

/-- Evaluation keeps values well formed and within bounds, in every setting. -/
theorem eval_safe (safe : registry.Safe) (e : Expr) (caller : setting.WellFormed) :
    Safe Value.WellFormed (eval registry setting e) := by
  induction e using Expr.childInduction generalizing setting with
  | step e ih =>
      cases e with
      | literal value =>
          refine .pure (.atomic ?_)
          cases value <;> trivial
      | ident name => exact lookup_safe caller name
      | column ident =>
          rw [eval]
          exact column_safe setting ident
      | interpolated inner =>
          have own : inner ∈ (Expr.interpolated inner).children := by simp [Expr.children]
          cases setting with
          | body =>
              rw [eval]
              exact .throw (InBounds.sound (by rintro ⟨⟩) rfl)
          | selector scope =>
              rw [eval]
              exact ih inner own caller
          | sink scope schema =>
              rw [eval]
              have selected : Setting.WellFormed (.selector scope) := caller
              exact (ih inner own selected).bind fun v _ => .lift
                (fun _ => wellFormed_of_columnNames) fun _ => sound_of_columnNames
      | call func args dotted =>
          rw [eval]
          refine (evalItems_safe fun c inside => ih c inside caller).bind fun vs each => ?_
          split
          · exact .broadcast each fun ws _ whole => .call safe func whole
          · exact .call safe func each
      | binary op left right dotted =>
          have first := ih left (by simp [Expr.children]) caller
          have second := ih right (by simp [Expr.children]) caller
          cases op
          case and =>
            rw [eval]
            exact first.bind fun x _ => (condition_safe x).bind fun b _ =>
              .ite b second (.pure (.atomic trivial))
          case or =>
            rw [eval]
            exact first.bind fun x _ => (condition_safe x).bind fun b _ =>
              .ite b (.pure (.atomic trivial)) second
          all_goals
            rw [eval]
            · exact first.bind fun x one => second.bind fun y two =>
                binaryStep_safe _ dotted one two
            all_goals simp
      | unary op operand dotted =>
          rw [eval]
          exact (ih operand (by simp [Expr.children]) caller).bind fun v whole =>
            unaryStep_safe op dotted whole
      | index base indices =>
          rw [eval]
          refine (ih base (by simp [Expr.children]) caller).bind fun v whole => ?_
          have later := evalItems_safe fun c inside =>
            ih c (List.mem_cons_of_mem base inside) caller
          refine later.bind fun vs _ => ?_
          exact .lift (fun _ => wellFormed_of_index whole) fun _ => sound_of_index whole
      | conditional cond yes no =>
          rw [eval]
          exact (ih cond (by simp [Expr.children]) caller).bind fun v _ =>
            (condition_safe v).bind fun b _ => .ite b (ih yes (by simp [Expr.children]) caller)
              (ih no (by simp [Expr.children]) caller)
      | vector items =>
          rw [eval]
          exact (evalItems_safe fun c inside => ih c inside caller).bind fun _ each =>
            .pure (.list each)
      | tuple items =>
          rw [eval]
          exact (evalItems_safe fun c inside => ih c inside caller).bind fun _ each =>
            .pure (.list each)
      | matrix rows =>
          rw [eval]
          refine (evalRows_safe fun c inside => ih c inside caller).bind fun vss each => ?_
          split
          · rename_i g made
            obtain ⟨whole, from_rows⟩ := Grid.wellFormed_of_ofRows? made
            refine .pure (.grid whole fun v inside => ?_)
            obtain ⟨row, listed, own⟩ := from_rows v inside
            exact each row listed v own
          · exact safe_unsupported (by simp)
      | record fields =>
          rw [eval]
          exact (evalFields_safe fun c inside => ih c inside caller).bind fun _ each =>
            .pure (.record each)
      | assign target value =>
          rw [eval]
          exact (ih value (by simp [Expr.children]) caller).bind fun v whole =>
            (assign_safe target whole).bind fun _ _ => .pure whole
      | block statements =>
          intro m vars
          simp only [eval, ensures_bind, ensures_get, ensures_modify, ensures_pure]
          have inner :
              Safe Value.WellFormed (evalStatements registry setting .missing statements) :=
            evalStatements_safe (.atomic trivial) fun c inside => ih c inside caller
          exact (inner m vars).mono fun v m₁ post => ⟨post.1, post.2.truncate _⟩
      | splat name =>
          rw [eval]
          exact safe_unsupported (by simp)
      | directed letters inner =>
          rw [eval]
          exact safe_unsupported (by simp)

end

/-- Broadcasting visits the positions of the common shape in order if they can be counted. None of its
dimensions is empty then, and each value has an element where the index of the position is
stretched. -/
theorem broadcast_in_bounds {args : List Value} (each : ∀ v ∈ args, v.WellFormed) {common : Shape}
    (joined : Shape.common? (args.map Value.shape) = some common) {indices : List (List Nat)}
    (listed : Shape.enumerate? common = some indices) :
    indices = (List.range (Shape.size common)).map (Shape.digits common)
      ∧ ∀ place < Shape.size common, (∀ n ∈ common, 0 < n)
        ∧ ∀ v ∈ args, Shape.operandPosition v.shape (Shape.digits common place)
          < v.elements.length := by
  obtain ⟨-, rfl⟩ := Shape.enumerate?_eq_some_iff.mp listed
  refine ⟨Shape.indices_eq_digits common, fun place below => ⟨fun n inside =>
    Shape.positive_of_lt_size below inside, fun v there => ?_⟩⟩
  have inside : Shape.digits common place ∈ Shape.indices common := by
    rw [Shape.indices_eq_digits]
    exact List.mem_map_of_mem (List.mem_range.mpr below)
  have stretches := (Shape.common?_iff.mp joined).1 _ (List.mem_map_of_mem there)
  rw [← (each v there).size_shape]
  exact Shape.operandPosition_lt stretches inside

/-- With the standard functions, an evaluation that meets only well-formed values at its start comes
to a well-formed value, or it fails, or it stops at a limit that it has reached: a shape with too many
elements to count, a text that is too long, an integer without an absolute value, floats without an
order. It never reads an element that is not there: no error of the evaluator tells of one, and on
well-formed values broadcasting, transposing and taking a median find all the elements that they go
through. -/
theorem eval_in_bounds (version : String) (e : Expr) {setting : Setting}
    (caller : setting.WellFormed) {m : Machine σ} (vars : m.env.WellFormed) :
    (eval (Registry.standard version) setting e).Ensures m
      (fun v m' => v.WellFormed ∧ m'.env.WellFormed) Sound
    ∧ (∀ args : List Value, (∀ v ∈ args, v.WellFormed) → ∀ common,
      Shape.common? (args.map Value.shape) = some common →
      ∀ indices, Shape.enumerate? common = some indices →
      indices = (List.range (Shape.size common)).map (Shape.digits common)
        ∧ ∀ place < Shape.size common, (∀ n ∈ common, 0 < n)
          ∧ ∀ v ∈ args, Shape.operandPosition v.shape (Shape.digits common place)
            < v.elements.length)
    ∧ (∀ g : Grid Value, g.WellFormed → ∀ rows columns, g.shape = [rows, columns] →
      ∃ t, g.transposed? = some t ∧ t.WellFormed)
    ∧ ∀ name items xs, Builtin.someNumbers name items = .ok xs → ∀ le : Float → Float → Bool,
      xs.length / 2 < (xs.mergeSort le).length ∧ xs.length / 2 - 1 < (xs.mergeSort le).length := by
  refine ⟨eval_safe (Registry.standard_safe version) e caller m vars,
    fun args each common joined indices listed => broadcast_in_bounds each joined listed,
    fun g whole rows columns matrix => ?_, fun name items xs is le => ?_⟩
  · obtain ⟨t, made, -, complete, -⟩ := whole.exists_transposed? matrix
    exact ⟨t, made, complete⟩
  · have filled := Builtin.settles_someNumbers name items
    rw [is] at filled
    exact Builtin.middle_lt filled le

/-- The sums of the elements of a list with those of its row are a matrix, made from the elements at
four positions. -/
theorem sums_in_bounds : ∃ m',
    eval (Registry.standard "1") .body
      (.binary .add (.ident "x") (.call "permutedims" [.ident "x"] false) true)
      ⟨Env.ofList [("x", .list [.int 1, .int 2])], ()⟩
        = (.ok (.grid ⟨[2, 2], [.int 2, .int 3, .int 3, .int 4]⟩), m')
    ∧ (Value.grid ⟨[2, 2], [.int 2, .int 3, .int 3, .int 4]⟩).WellFormed
    ∧ ∀ place < 4, Shape.operandPosition [1, 2] (Shape.digits [2, 2] place) < 2 := by
  let sums : Expr := .binary .add (.ident "x") (.call "permutedims" [.ident "x"] false) true
  let list : Value := .list [.int 1, .int 2]
  let row : Value := .grid ⟨[1, 2], [.int 1, .int 2]⟩
  let env : Env := Env.ofList [("x", list)]
  have caller : Setting.WellFormed .body := nofun
  have each : ∀ v ∈ [.int 1, .int 2], Value.WellFormed v := by
    intro v inside
    obtain rfl | rfl := List.mem_pair.mp inside <;> exact .atomic trivial
  have vars : env.WellFormed := by
    intro v inside
    obtain rfl := List.mem_singleton.mp inside
    exact .list each
  have args : ∀ v ∈ [list, row], v.WellFormed := by
    intro v inside
    obtain rfl | rfl := List.mem_pair.mp inside
    · exact .list each
    · exact .grid rfl each
  obtain ⟨m', ran⟩ : ∃ m', eval (Registry.standard "1") .body sums ⟨env, ()⟩
      = (.ok (.grid ⟨[2, 2], [.int 2, .int 3, .int 3, .int 4]⟩), m') := ⟨_, rfl⟩
  have h := eval_in_bounds "1" sums caller (m := ⟨env, ()⟩) vars
  have result := h.1
  rw [Ensures, ran] at result
  have reads := (h.2.1 [list, row] args [2, 2] rfl _ rfl).2
  exact ⟨m', ran, result.1, fun place below => (reads place below).2 row (by simp)⟩

end Eval

end TablePlan
