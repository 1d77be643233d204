import TablePlan.Proofs.Effects
import TablePlan.Proofs.Eval.Contract
import TablePlan.Proofs.Eval.DataErrors
import TablePlan.Proofs.Expr.Scoping

/-!
# Evaluation is scoped statically

An evaluation that starts with variables of the names that are visible leaves variables of the names
that the expression binds, and looks up no unbound name but its strays. The other errors it raises
are those of data, of the functions called, and of references and directives that are left in it.
-/

namespace TablePlan

variable {σ α β : Type}

namespace Machine

/-- `m'` has the variables of `m`, perhaps hidden by newer ones, and a variable of every name. -/
structure Leads (m : Machine σ) (names : List String) (m' : Machine σ) : Prop where
  grown : ∃ added, m'.env.vars = added ++ m.env.vars
  bound : ∀ n ∈ names, (m'.env.get? n).isSome

end Machine

/-- The errors that evaluating an expression with these strays and these nodes can raise. -/
inductive EvalError.Raised (registry : Registry σ) (unbound : List String) (nodes : List Expr) :
    EvalError → Prop where
  | data {e} (h : e.OfData) : Raised registry unbound nodes e
  | name {n} (h : n ∈ unbound) : Raised registry unbound nodes (.undefinedVariable n)
  | reference {e} (c) (h : e ∈ nodes) (is : e.isReference) :
      Raised registry unbound nodes (.unboundColumnReference c)
  | directive {letters inner} (h : Expr.directed letters inner ∈ nodes) :
      Raised registry unbound nodes (.ofDirective letters)
  | call {func args dotted values state cause} (h : Expr.call func args dotted ∈ nodes)
      (count : values.length = args.length)
      (fails : (registry.call func values state).1 = .error cause) :
      Raised registry unbound nodes (.registry cause)

theorem EvalError.Raised.mono {registry : Registry σ} {unbound unbound' : List String}
    {nodes nodes' : List Expr} {e : EvalError} (h : e.Raised registry unbound nodes)
    (names : unbound ⊆ unbound') (inside : nodes ⊆ nodes') : e.Raised registry unbound' nodes' := by
  cases h with
  | data h => exact .data h
  | name h => exact .name (names h)
  | reference c h is => exact .reference c (inside h) is
  | directive h => exact .directive (inside h)
  | call h count fails => exact .call (inside h) count fails

theorem Machine.Leads.refl {m : Machine σ} {names : List String}
    (bound : ∀ n ∈ names, (m.env.get? n).isSome) : m.Leads names m :=
  ⟨⟨[], rfl⟩, bound⟩

theorem Machine.Leads.trans {m m₁ m₂ : Machine σ} {names names' : List String}
    (first : m.Leads names m₁) (second : m₁.Leads names' m₂) : m.Leads names' m₂ := by
  obtain ⟨added, grown⟩ := first.grown
  obtain ⟨later, grown'⟩ := second.grown
  exact ⟨⟨later ++ added, by rw [grown', grown, List.append_assoc]⟩, second.bound⟩

namespace EvalM

/-- From variables of the names in `visible`, the computation leads to variables of these and of
the names in `binds`, or raises one of the errors listed. -/
def Scoped (registry : Registry σ) (visible binds unbound : List String) (nodes : List Expr)
    (x : EvalM σ α) : Prop :=
  ∀ m : Machine σ, (∀ n ∈ visible, (m.env.get? n).isSome) →
    x.Ensures m (fun _ m' => m.Leads (visible ++ binds) m') (EvalError.Raised registry unbound nodes)

namespace Scoped

variable {registry : Registry σ} {visible binds binds' unbound unbound' : List String}
variable {nodes nodes' : List Expr}

theorem weaken {x : EvalM σ α} (h : Scoped registry visible binds unbound nodes x)
    (fewer : binds' ⊆ visible ++ binds) (names : unbound ⊆ unbound') (inside : nodes ⊆ nodes') :
    Scoped registry visible binds' unbound' nodes' x := by
  intro m start
  refine ((h m start).mono fun _ m' leads => ⟨leads.grown, fun n listed => ?_⟩).mono_error
    fun e raised => raised.mono names inside
  obtain seen | later := List.mem_append.mp listed
  · exact leads.bound n (List.mem_append_left _ seen)
  · exact leads.bound n (fewer later)

/-- A sequence, whose second part may rely on what is known of the value of the first. -/
theorem seq_of {P : α → Prop} {x : EvalM σ α} {f : α → EvalM σ β}
    (value : ∀ m, x.Ensures m (fun a _ => P a) fun _ => True)
    (first : Scoped registry visible binds unbound nodes x)
    (second : ∀ a, P a → Scoped registry (visible ++ binds) binds' unbound' nodes' (f a)) :
    Scoped registry visible (binds ++ binds') (unbound ++ unbound') (nodes ++ nodes') (x >>= f) := by
  intro m start
  rw [ensures_bind]
  refine (((first m start).and (value m)).mono fun a m₁ h => ?_).mono_error fun e raised =>
    raised.mono (List.subset_append_left ..) (List.subset_append_left ..)
  refine ((second a h.2 m₁ h.1.bound).mono fun b m₂ more => ?_).mono_error fun e raised =>
    raised.mono (List.subset_append_right ..) (List.subset_append_right ..)
  rw [← List.append_assoc]
  exact h.1.trans more

theorem seq {x : EvalM σ α} {f : α → EvalM σ β}
    (first : Scoped registry visible binds unbound nodes x)
    (second : ∀ a, Scoped registry (visible ++ binds) binds' unbound' nodes' (f a)) :
    Scoped registry visible (binds ++ binds') (unbound ++ unbound') (nodes ++ nodes') (x >>= f) :=
  seq_of (fun m => ensures_true x m) first fun a (_ : True) => second a

theorem pure (a : α) : Scoped registry visible [] [] [] (pure a : EvalM σ α) := by
  intro m start
  exact Machine.Leads.refl (by simpa using start)

theorem ite {x y : EvalM σ α} (b : Bool) (first : Scoped registry visible binds unbound nodes x)
    (second : Scoped registry visible binds unbound nodes y) :
    Scoped registry visible binds unbound nodes (if b then x else y) := by
  cases b
  · exact second
  · exact first

/-- What only looks at data raises errors of data only. -/
theorem ofData {r : Except EvalError α} (h : ∀ e, r = .error e → e.OfData) :
    Scoped registry visible [] [] [] (liftM r : EvalM σ α) := by
  intro m start
  rw [ensures_liftM]
  exact ⟨fun a _ => Machine.Leads.refl (by simpa using start), fun e fails => .data (h e fails)⟩

/-- Deciding a condition binds nothing more, so either branch goes on from what the condition has
bound. -/
theorem branch {cond yes no : EvalM σ Value}
    (first : Scoped registry visible binds unbound nodes cond)
    (second : Scoped registry (visible ++ binds) binds' unbound' nodes' yes)
    (third : Scoped registry (visible ++ binds) binds' unbound' nodes' no) :
    Scoped registry visible (binds ++ binds') (unbound ++ unbound') (nodes ++ nodes') (do
      if ← Eval.condition (← cond) then yes else no) := by
  have decided (v : Value) : Scoped registry (visible ++ binds) [] [] []
      (liftM (Eval.condition v) : EvalM σ Bool) :=
    ofData fun _ fails => (Eval.ofOperands_of_condition fails).ofData
  refine first.seq fun v => (decided v).seq fun b => ?_
  rw [List.append_nil]
  exact ite b second third

theorem throw {e : EvalError} (h : e.Raised registry unbound nodes) :
    Scoped registry visible binds unbound nodes (throw e : EvalM σ α) :=
  fun _ _ => h

theorem push (name : String) (v : Value) :
    Scoped registry visible [name] [] [] (push name v : EvalM σ Unit) := by
  intro m start
  refine ⟨⟨[(name, v)], rfl⟩, fun n listed => ?_⟩
  obtain rfl | other := eq_or_ne name n
  · simp
  · simpa [other.symm] using start n (by simpa [other.symm] using listed)

/-- A call raises what the registry raises for this number of arguments. -/
theorem call {func : String} {args : List Expr} {dotted : Bool} {values : List Value}
    (count : values.length = args.length) :
    Scoped registry visible [] [] [.call func args dotted] (call registry func values) := by
  intro m start
  refine ensures_call (fun v state _ => ?_) fun e fails => ?_
  · exact ⟨⟨[], rfl⟩, by simpa using start⟩
  · exact .call (List.mem_singleton_self _) count fails

/-- The elements that a broadcast aligns are as many as its arguments. -/
theorem broadcast {f : List Value → EvalM σ Value} {args : List Value}
    (each : ∀ elements, elements.length = args.length →
      Scoped registry visible [] unbound nodes (f elements)) :
    Scoped registry visible [] unbound nodes (Eval.broadcast f args) := by
  simp only [Eval.broadcast]
  split
  · exact throw (.data trivial)
  · exact each args rfl
  · split
    · exact throw (.data trivial)
    · intro m start
      rw [ensures_bind]
      refine (ensures_mapM (I := fun m' => m.Leads visible m') (Machine.Leads.refl start) ?_).mono
        fun results m' h => ?_
      · intro index _ m₁ leads
        split
        · rename_i elements aligned
          have count := (mapM_some_iff.mp aligned).length_eq.symm
          refine (each elements count m₁ leads.bound).mono fun _ m₂ more => ?_
          exact leads.trans (by simpa using more)
        · exact EvalError.Raised.data trivial
      · simpa using h.2

end Scoped

end EvalM

namespace Eval

open EvalM TablePlan.Expr

variable {registry : Registry σ} {visible : List String}

theorem ofData_assignment (target : Expr) :
    (EvalError.unsupported ("assignment to " ++ target.text)).OfData :=
  EvalError.ofData_unsupported (by simp)

theorem boundNames_tuple_cons (target : Expr) (rest : List Expr) :
    (tuple (target :: rest)).boundNames ⊆ target.boundNames ++ (tuple rest).boundNames := by
  cases target <;> simp [boundNames]

/-- What several targets bind, if every single one binds its names. -/
theorem assignItems_scoped {items : List Expr}
    (each : ∀ item ∈ items, ∀ visible v,
      Scoped registry visible item.boundNames [] [] (assign item v : EvalM σ Unit))
    (fixed position : Nat) (elements : List Value) :
    Scoped registry visible (tuple items).boundNames [] []
      (assignItems fixed position items elements : EvalM σ Unit) := by
  induction items generalizing visible position elements with
  | nil => exact .pure ()
  | cons target rest ih =>
      by_cases splat : ∃ name, target = .splat name
      · obtain ⟨name, rfl⟩ := splat
        unfold assignItems
        split
        · rename_i last
          obtain rfl := List.isEmpty_iff.mp last
          exact .push name _
        · exact .throw (.data (EvalError.ofData_unsupported (by simp)))
      · cases elements with
        | nil =>
            rw [assignItems]
            · exact .throw (.data trivial)
            · exact fun name is => splat ⟨name, is⟩
        | cons v elements =>
            rw [assignItems]
            · have first := each target (by simp) visible v
              have later : Scoped registry (visible ++ target.boundNames) _ _ _ _ :=
                ih (fun item inside => each item (by simp [inside])) (position + 1) elements
              refine (first.seq fun _ => later).weaken ?_ (by simp) (by simp)
              exact List.Subset.trans (boundNames_tuple_cons target rest) (List.subset_append_right ..)
            · exact fun name is => splat ⟨name, is⟩

/-- An assignment that succeeds binds every name of its target. -/
theorem assign_scoped (target : Expr) (v : Value) :
    Scoped registry visible target.boundNames [] [] (assign target v : EvalM σ Unit) := by
  induction target using childInduction generalizing visible v with
  | step target ih =>
      cases target with
      | ident name => exact .push name v
      | tuple items =>
          rw [assign]
          refine (Scoped.ofData fun _ h => (ofOperands_of_destructured h).ofData).seq fun elements => ?_
          dsimp only
          split
          · exact .throw (.data trivial)
          · exact assignItems_scoped (fun item inside visible v => ih item inside v) _ 0 elements
      | _ =>
          rw [assign]
          · exact .throw (.data (ofData_assignment _))
          all_goals simp

/-- What evaluating `e` binds and raises, whatever is visible when it starts. -/
def Statically (registry : Registry σ) (e : Expr) : Prop :=
  ∀ visible, Scoped registry visible e.binds (e.strays visible) e.nodes (eval registry .body e)

theorem evalItems_scoped {items : List Expr} (each : ∀ item ∈ items, Statically registry item)
    (visible : List String) :
    Scoped registry visible (bindsOfItems items) (straysOfItems visible items) (nodesOfItems items)
      (evalItems registry .body items) := by
  induction items generalizing visible with
  | nil => exact .pure []
  | cons item rest ih =>
      rw [evalItems]
      have first := each item (by simp) visible
      have later := ih fun c inside => each c (by simp [inside])
      refine (first.seq fun v => (later _).seq fun vs => .pure _).weaken ?_ ?_ ?_
      all_goals simp [bindsOfItems, straysOfItems, nodesOfItems]

theorem evalRows_scoped {rows : List (List Expr)}
    (each : ∀ item ∈ rows.flatten, Statically registry item) (visible : List String) :
    Scoped registry visible (bindsOfRows rows) (straysOfRows visible rows) (nodesOfRows rows)
      (evalRows registry .body rows) := by
  induction rows generalizing visible with
  | nil => exact .pure []
  | cons row rest ih =>
      rw [evalRows]
      rw [List.flatten_cons] at each
      have first := evalItems_scoped (fun c inside => each c (List.mem_append_left _ inside)) visible
      have later := ih fun c inside => each c (List.mem_append_right _ inside)
      refine (first.seq fun v => (later _).seq fun vs => .pure _).weaken ?_ ?_ ?_
      all_goals simp [bindsOfRows, straysOfRows, nodesOfRows]

theorem evalFields_scoped {fields : List (String × Expr)}
    (each : ∀ item ∈ fields.map Prod.snd, Statically registry item) (visible : List String) :
    Scoped registry visible (bindsOfFields fields) (straysOfFields visible fields)
      (nodesOfFields fields) (evalFields registry .body fields) := by
  induction fields generalizing visible with
  | nil => exact .pure []
  | cons field rest ih =>
      rw [evalFields]
      rw [List.map_cons] at each
      have first := each field.2 List.mem_cons_self visible
      have later := ih fun c inside => each c (List.mem_cons_of_mem _ inside)
      refine (first.seq fun v => (later _).seq fun vs => .pure _).weaken ?_ ?_ ?_
      all_goals simp [bindsOfFields, straysOfFields, nodesOfFields]

theorem evalStatements_scoped {items : List Expr} (last : Value)
    (each : ∀ item ∈ items, Statically registry item) (visible : List String) :
    Scoped registry visible (bindsOfItems items) (straysOfItems visible items) (nodesOfItems items)
      (evalStatements registry .body last items) := by
  induction items generalizing visible last with
  | nil => exact .pure last
  | cons item rest ih =>
      rw [evalStatements]
      exact (each item (by simp) visible).seq fun v =>
        ih v (fun c inside => each c (by simp [inside])) _

/-- A name is found among the variables, or it is a stray. -/
theorem lookup_scoped (name : String) :
    Scoped registry visible [] ((ident name).strays visible) [] (lookup .body name) := by
  intro m start
  simp only [lookup, ensures_bind, ensures_get]
  split
  · exact Machine.Leads.refl (by simpa using start)
  · rename_i missing
    refine .name ?_
    have unseen : name ∉ visible := fun seen => by simpa [missing] using start name seen
    simp [strays, unseen]

/-- Items have one value each. -/
theorem ensures_evalItems_length (setting : Setting) (items : List Expr) (m : Machine σ) :
    (evalItems registry setting items).Ensures m (fun vs _ => vs.length = items.length)
      fun _ => True := by
  induction items generalizing m with
  | nil => rfl
  | cons item rest ih =>
      simp only [evalItems, ensures_bind, ensures_pure]
      refine (ensures_true _ m).mono fun v m₁ _ => (ih m₁).mono fun vs _ count => ?_
      rw [List.length_cons, List.length_cons, count]

/-- What an operator before an evaluated operand does. -/
theorem unaryStep_scoped (op : UnaryOp) (dotted : Bool) (v : Value) :
    Scoped registry visible [] [] []
      (if dotted then
        broadcast (fun
          | [x] => liftM (unary op x)
          | args => throw (.arityMismatch 1 args.length)) [v]
      else liftM (wholeUnary op v) : EvalM σ Value) := by
  split
  · refine .broadcast fun elements count => ?_
    obtain ⟨x, rfl⟩ := List.length_eq_one_iff.mp count
    exact .ofData fun _ h => (ofOperands_of_unary h).ofData
  · exact .ofData fun _ h => (ofOperands_of_wholeUnary h).ofData

/-- What an operator between evaluated operands does. -/
theorem binaryStep_scoped (op : BinaryOp) (dotted : Bool) (left right : Value) :
    Scoped registry visible [] [] []
      (if dotted then
        broadcast (fun
          | [x, y] => liftM (binary op x y)
          | args => throw (.arityMismatch 2 args.length)) [left, right]
      else liftM (wholeBinary op left right) : EvalM σ Value) := by
  split
  · refine .broadcast fun elements count => ?_
    obtain ⟨x, y, rfl⟩ := List.length_eq_two.mp count
    exact .ofData fun _ h => (ofOperands_of_binary h).ofData
  · exact .ofData fun _ h => (ofOperands_of_wholeBinary h).ofData

/-- What a call of a function on evaluated arguments does. -/
theorem callStep_scoped {func : String} {args : List Expr} {dotted : Bool} {values : List Value}
    (count : values.length = args.length) :
    Scoped registry visible [] [] [.call func args dotted]
      (if dotted then broadcast (EvalM.call registry func) values
        else EvalM.call registry func values) := by
  split
  · exact .broadcast fun elements same => .call (same.trans count)
  · exact .call count

/-- What evaluated rows are made into. -/
theorem gridStep_scoped (rows : List (List Value)) :
    Scoped registry visible [] [] []
      (match Grid.ofRows? rows with
        | some g => return .grid g
        | none => throw (.unsupported "ragged matrix literal") : EvalM σ Value) := by
  split
  · exact .pure _
  · exact .throw (.data (EvalError.ofData_unsupported (by simp)))

/-- A block leaves the variables as they were. -/
theorem block_scoped {statements : List Expr}
    (each : ∀ item ∈ statements, Statically registry item) :
    Scoped registry visible [] (straysOfItems visible statements) (nodesOfItems statements)
      (eval registry .body (block statements)) := by
  intro m start
  simp only [eval, ensures_bind, ensures_get, ensures_modify, ensures_pure]
  refine (evalStatements_scoped .missing each visible m start).mono fun v m₁ leads => ?_
  obtain ⟨added, grown⟩ := leads.grown
  have restored := Env.truncate_of_added grown
  exact ⟨⟨[], congrArg Env.vars restored⟩, by simpa [restored] using start⟩

/-- Every evaluation is scoped statically. -/
theorem eval_scoped (e : Expr) : Statically registry e := by
  induction e using childInduction with
  | step e ih =>
      intro visible
      cases e with
      | literal value => exact (Scoped.pure _).weaken (by simp [binds]) (by simp) (by simp)
      | ident name => exact (lookup_scoped name).weaken (by simp [binds]) (by simp) (by simp)
      | column c =>
          exact .throw (.reference _ (self_mem_nodes _) rfl)
      | interpolated inner =>
          rw [eval]
          exact .throw (.reference _ (self_mem_nodes _) rfl)
      | call func args dotted =>
          rw [eval]
          refine (Scoped.seq_of (ensures_evalItems_length .body args) (evalItems_scoped ih visible)
            fun values count => callStep_scoped count).weaken ?_ ?_ ?_
          all_goals simp [binds, strays, nodes, children]
      | binary op left right dotted =>
          have first := ih left (by simp [children]) visible
          have second := ih right (by simp [children]) (visible ++ left.binds)
          have skipped (v : Value) : Scoped registry (visible ++ left.binds) []
              (right.strays (visible ++ left.binds)) right.nodes (pure v : EvalM σ Value) :=
            (Scoped.pure v).weaken (by simp) (by simp) (by simp)
          have evaluated : Scoped registry (visible ++ left.binds) []
              (right.strays (visible ++ left.binds)) right.nodes (eval registry .body right) :=
            second.weaken (by simp) (by simp) (by simp)
          cases op
          case and =>
            rw [eval]
            refine (first.branch evaluated (skipped _)).weaken ?_ ?_ ?_
            all_goals simp [binds, strays, nodes]
          case or =>
            rw [eval]
            refine (first.branch (skipped _) evaluated).weaken ?_ ?_ ?_
            all_goals simp [binds, strays, nodes]
          all_goals
            rw [eval]
            · refine (first.seq fun x => second.seq fun y => binaryStep_scoped _ dotted x y).weaken
                ?_ ?_ ?_
              all_goals simp [binds, strays, nodes]
            all_goals simp
      | unary op operand dotted =>
          rw [eval]
          have h := ih operand (by simp [children]) visible
          refine (h.seq fun v => unaryStep_scoped op dotted v).weaken ?_ ?_ ?_
          all_goals simp [binds, strays, nodes]
      | index base indices =>
          rw [eval]
          have first := ih base (by simp [children]) visible
          have later := evalItems_scoped fun c inside => ih c (List.mem_cons_of_mem base inside)
          refine (first.seq fun v => (later _).seq fun vs =>
            .ofData fun e => ofData_of_index).weaken ?_ ?_ ?_
          all_goals simp [binds, strays, nodes]
      | conditional cond yes no =>
          rw [eval]
          have first := ih cond (by simp [children]) visible
          have both : yes.binds.filter (no.binds.contains ·) ⊆ no.binds := by
            intro n listed
            simp_all
          have second : Scoped registry (visible ++ cond.binds)
              (yes.binds.filter (no.binds.contains ·))
              (yes.strays (visible ++ cond.binds) ++ no.strays (visible ++ cond.binds))
              (yes.nodes ++ no.nodes) (eval registry .body yes) :=
            (ih yes (by simp [children]) _).weaken (by simp) (by simp) (by simp)
          have third : Scoped registry (visible ++ cond.binds)
              (yes.binds.filter (no.binds.contains ·))
              (yes.strays (visible ++ cond.binds) ++ no.strays (visible ++ cond.binds))
              (yes.nodes ++ no.nodes) (eval registry .body no) :=
            (ih no (by simp [children]) _).weaken (List.Subset.trans both (by simp)) (by simp)
              (by simp)
          refine (first.branch second third).weaken ?_ ?_ ?_
          all_goals simp [binds, strays, nodes]
      | vector items =>
          rw [eval]
          refine ((evalItems_scoped ih visible).seq fun vs => .pure _).weaken ?_ ?_ ?_
          all_goals simp [binds, strays, nodes, children]
      | tuple items =>
          rw [eval]
          refine ((evalItems_scoped ih visible).seq fun vs => .pure _).weaken ?_ ?_ ?_
          all_goals simp [binds, strays, nodes, children]
      | matrix rows =>
          rw [eval]
          refine ((evalRows_scoped ih visible).seq fun vs => gridStep_scoped vs).weaken ?_ ?_ ?_
          all_goals simp [binds, strays, nodes]
      | record fields =>
          rw [eval]
          refine ((evalFields_scoped ih visible).seq fun vs => .pure _).weaken ?_ ?_ ?_
          all_goals simp [binds, strays, nodes]
      | assign target value =>
          rw [eval]
          have h := ih value (by simp [children]) visible
          refine (h.seq fun v => (assign_scoped target v).seq fun _ => .pure v).weaken ?_ ?_ ?_
          all_goals simp [binds, strays, nodes]
      | block statements =>
          refine (block_scoped ih).weaken ?_ ?_ ?_
          all_goals simp [binds, strays, nodes, children]
      | splat name =>
          rw [eval]
          exact .throw (.data (EvalError.ofData_unsupported (by simp)))
      | directed letters inner =>
          exact .throw (.directive (self_mem_nodes _))

end Eval

end TablePlan
