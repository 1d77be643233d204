import TablePlan.Proofs.Effects
import TablePlan.Proofs.Eval.Answering

/-!
# Evaluations in parallel

Two evaluations that start with variables of their own, and add the same local variables to them,
go the same way as long as they agree on the names that they look up and bind. Whatever the nodes
of an expression are given as values, expressions with the same head and with parts that go the
same way go the same way.
-/

namespace TablePlan

variable {σ α β γ δ : Type}

/-- How two evaluations run in parallel: the names they may look up and bind, the variables that
each starts with, and how the states of the functions are related. -/
structure Parallel (σ : Type) where
  shared : String → Prop
  left : List (String × Value)
  right : List (String × Value)
  states : σ → σ → Prop

namespace Parallel

/-- From the same local variables and related states both computations come to the same outcome,
the same local variables and related states. -/
def Runs (P : Parallel σ) (x y : EvalM σ α) : Prop :=
  ∀ locals s t, (∀ v ∈ locals, P.shared v.1) → P.states s t →
    ∃ outcome locals' s' t', x ⟨⟨locals ++ P.left⟩, s⟩ = (outcome, ⟨⟨locals' ++ P.left⟩, s'⟩)
      ∧ y ⟨⟨locals ++ P.right⟩, t⟩ = (outcome, ⟨⟨locals' ++ P.right⟩, t'⟩)
      ∧ (∀ v ∈ locals', P.shared v.1) ∧ P.states s' t'

/-- Both evaluations see the same under the names they share, and functions cannot tell related
states apart. -/
structure Agrees (P : Parallel σ) (registry : Registry σ) : Prop where
  names : ∀ n, P.shared n → P.left.lookup n = P.right.lookup n
  calls : ∀ func args s t, P.states s t →
    (registry.call func args s).1 = (registry.call func args t).1
      ∧ P.states (registry.call func args s).2 (registry.call func args t).2

variable {P : Parallel σ} {registry : Registry σ}

theorem run_get (m : Machine σ) : (get : EvalM σ (Machine σ)) m = (.ok m, m) := rfl

theorem run_call (func : String) (args : List Value) (env : Env) (s : σ) :
    EvalM.call registry func args ⟨env, s⟩
      = ((registry.call func args s).1.mapError .registry,
        ⟨env, (registry.call func args s).2⟩) := by
  rcases h : registry.call func args s with ⟨_ | _, s'⟩ <;>
  simp only [EvalM.call, bind, ExceptT.bind, ExceptT.mk, StateT.bind, ExceptT.bindCont,
    run_get, h] <;>
  rfl

/-! ### The parts of computations -/

namespace Runs

theorem pure (a : α) : P.Runs (pure a) (pure a) :=
  fun locals s t shared related => ⟨_, locals, s, t, rfl, rfl, shared, related⟩

theorem throw (e : EvalError) : P.Runs (throw e : EvalM σ α) (throw e) :=
  fun locals s t shared related => ⟨_, locals, s, t, rfl, rfl, shared, related⟩

theorem lift (r : Except EvalError α) : P.Runs (liftM r) (liftM r) := by
  cases r with
  | ok a => exact pure a
  | error e => exact throw e

theorem bind {x y : EvalM σ α} {f g : α → EvalM σ β} (first : P.Runs x y)
    (second : ∀ a, P.Runs (f a) (g a)) : P.Runs (x >>= f) (y >>= g) := by
  intro locals s t shared related
  obtain ⟨outcome, locals₁, s₁, t₁, left, right, shared₁, related₁⟩ :=
    first locals s t shared related
  simp only [Bind.bind, ExceptT.bind, ExceptT.mk, StateT.bind, left, right]
  cases outcome with
  | error e => exact ⟨_, locals₁, s₁, t₁, rfl, rfl, shared₁, related₁⟩
  | ok a => exact second a locals₁ s₁ t₁ shared₁ related₁

theorem ite (b : Bool) {x y x' y' : EvalM σ α} (yes : P.Runs x y) (no : P.Runs x' y') :
    P.Runs (if b then x else x') (if b then y else y') := by
  cases b with
  | true => exact yes
  | false => exact no

/-- Traversals of corresponding elements. -/
theorem mapM {f : α → EvalM σ γ} {g : β → EvalM σ γ} {as : List α} {bs : List β}
    (each : List.Forall₂ (fun a b => P.Runs (f a) (g b)) as bs) :
    P.Runs (as.mapM f) (bs.mapM g) := by
  induction each with
  | nil => exact pure []
  | cons first _ ih =>
      rw [List.mapM_cons, List.mapM_cons]
      exact first.bind fun v => ih.bind fun vs => pure (v :: vs)

theorem mapM_same {f g : α → EvalM σ γ} (as : List α) (each : ∀ a, P.Runs (f a) (g a)) :
    P.Runs (as.mapM f) (as.mapM g) := by
  refine mapM ?_
  induction as with
  | nil => exact .nil
  | cons a rest ih => exact .cons (each a) ih

theorem push {name : String} (shared : P.shared name) (v : Value) :
    P.Runs (EvalM.push name v) (EvalM.push name v) := by
  intro locals s t old related
  exact ⟨_, (name, v) :: locals, s, t, rfl, rfl, List.forall_mem_cons.mpr ⟨shared, old⟩, related⟩

theorem call (agrees : P.Agrees registry) (func : String) (args : List Value) :
    P.Runs (EvalM.call registry func args) (EvalM.call registry func args) := by
  intro locals s t shared related
  obtain ⟨same, related'⟩ := agrees.calls func args s t related
  rw [run_call, run_call, ← same]
  exact ⟨_, locals, _, _, rfl, rfl, shared, related'⟩

theorem broadcast {f g : List Value → EvalM σ Value} (each : ∀ args, P.Runs (f args) (g args))
    (args : List Value) : P.Runs (Eval.broadcast f args) (Eval.broadcast g args) := by
  simp only [Eval.broadcast]
  split
  · exact throw _
  · exact each args
  · split
    · exact throw _
    · refine bind (mapM_same _ fun index => ?_) fun vs => pure _
      split
      · exact each _
      · exact throw _

/-! ### Names and assignments -/

/-- Both evaluations find the same variable or look on. -/
theorem found {name : String} (alike : P.left.lookup name = P.right.lookup name)
    {x : EvalM σ Value} (missing : P.Runs x x) :
    P.Runs (do
      let m ← get
      match m.env.get? name with
      | some v => return v
      | none => x)
    (do
      let m ← get
      match m.env.get? name with
      | some v => return v
      | none => x) := by
  intro locals s t old related
  have same : (locals ++ P.left).lookup name = (locals ++ P.right).lookup name := by
    rw [List.lookup_append, List.lookup_append, alike]
  simp only [Bind.bind, ExceptT.bind, ExceptT.mk, StateT.bind, ExceptT.bindCont, run_get, Env.get?,
    same]
  cases (locals ++ P.right).lookup name with
  | some v => exact ⟨_, locals, s, t, rfl, rfl, old, related⟩
  | none => exact missing locals s t old related

theorem lookup (setting : Setting) {name : String}
    (alike : P.left.lookup name = P.right.lookup name) :
    P.Runs (Eval.lookup setting name : EvalM σ Value) (Eval.lookup setting name) := by
  refine found alike ?_
  split
  · exact throw _
  · split
    · exact pure _
    · split
      · exact pure _
      · exact throw _

end Runs

/-- The name that a node looks up or binds is shared. -/
def Names (P : Parallel σ) : Expr → Prop
  | .ident name | .splat name => P.shared name
  | _ => True

/-- Both evaluations start with the same variable of a name that the expression looks up, and they
share the names that it binds. -/
def Reads (P : Parallel σ) : Expr → Prop
  | .ident name => P.left.lookup name = P.right.lookup name
  | .assign target _ => target.All P.Names
  | _ => True

theorem Agrees.reads (agrees : P.Agrees registry) {e : Expr} (names : e.All P.Names) :
    P.Reads e := by
  cases e with
  | ident name => exact agrees.names name (names _ (Expr.self_mem_nodes _))
  | assign target value => exact names.child List.mem_cons_self
  | _ => trivial

namespace Runs

theorem assignItems {items : List Expr} (fixed : Nat)
    (each : ∀ item ∈ items, ∀ v, P.Runs (Eval.assign item v) (Eval.assign item v))
    (names : ∀ item ∈ items, P.Names item) (position : Nat) (elements : List Value) :
    P.Runs (Eval.assignItems fixed position items elements)
      (Eval.assignItems fixed position items elements) := by
  induction items generalizing position elements with
  | nil =>
      rw [Eval.assignItems]
      exact pure ()
  | cons item rest ih =>
      have later := ih (fun c inside => each c (by simp [inside]))
        fun c inside => names c (by simp [inside])
      by_cases splat : ∃ name, item = .splat name
      · obtain ⟨name, rfl⟩ := splat
        rw [Eval.assignItems]
        split
        · exact push (names (.splat name) (by simp)) _
        · exact throw _
      · cases elements with
        | nil =>
            rw [Eval.assignItems]
            · exact throw _
            · exact fun name is => splat ⟨name, is⟩
        | cons v elements =>
            rw [Eval.assignItems]
            · exact (each item (by simp) v).bind fun _ => later _ _
            · exact fun name is => splat ⟨name, is⟩

/-- Assignments to the same target. -/
theorem assign {target : Expr} (names : target.All P.Names) (v : Value) :
    P.Runs (Eval.assign target v) (Eval.assign target v) := by
  induction target using Expr.childInduction generalizing v with
  | step target ih =>
      cases target with
      | ident name => exact push (names _ (Expr.self_mem_nodes _)) v
      | tuple items =>
          have each (item : Expr) (inside : item ∈ items) := ih item inside (names.child inside)
          have own (item : Expr) (inside : item ∈ items) : P.Names item :=
            names item (Expr.child_mem_nodes inside)
          rw [Eval.assign]
          refine (lift _).bind fun elements => ?_
          dsimp only
          split
          · exact throw _
          · exact assignItems _ each own 0 elements
      | _ =>
          rw [Eval.assign]
          · exact throw _
          all_goals simp

/-! ### Expressions -/

section

variable {answers answers' : Eval.Answers σ}

theorem statements {items items' : List Expr} (last : Value)
    (each : List.Forall₂ (fun c c' => P.Runs (Eval.evalWith registry answers c)
      (Eval.evalWith registry answers' c')) items items') :
    P.Runs (Eval.evalStatementsWith registry answers last items)
      (Eval.evalStatementsWith registry answers' last items') := by
  induction each generalizing last with
  | nil => exact pure last
  | cons first _ ih => exact first.bind fun v => ih v

theorem rows {rows : List (List Expr)} {cs : List Expr}
    (each : List.Forall₂ (fun c c' => P.Runs (Eval.evalWith registry answers c)
      (Eval.evalWith registry answers' c')) rows.flatten cs) :
    P.Runs (Eval.evalRowsWith registry answers rows)
      (Eval.evalRowsWith registry answers' ((rows.map List.length).splitLengths cs)) := by
  induction rows generalizing cs with
  | nil => exact pure []
  | cons row rest ih =>
      rw [List.map_cons, List.splitLengths_cons]
      rw [List.flatten_cons] at each
      have first := List.forall₂_take row.length each
      have later := List.forall₂_drop row.length each
      rw [List.take_left] at first
      rw [List.drop_left] at later
      rw [Eval.evalRowsWith, Eval.evalRowsWith, Eval.evalItemsWith_eq, Eval.evalItemsWith_eq]
      exact (mapM first).bind fun vs => (ih later).bind fun vss => pure (vs :: vss)

theorem fields {fields : List (String × Expr)} {cs : List Expr}
    (each : List.Forall₂ (fun c c' => P.Runs (Eval.evalWith registry answers c)
      (Eval.evalWith registry answers' c')) (fields.map Prod.snd) cs) :
    P.Runs (Eval.evalFieldsWith registry answers fields)
      (Eval.evalFieldsWith registry answers' ((fields.map Prod.fst).zip cs)) := by
  induction fields generalizing cs with
  | nil => exact pure []
  | cons field rest ih =>
      cases each with
      | cons first later =>
          exact first.bind fun v => (ih later).bind fun vs => pure ((field.1, v) :: vs)

/-- A block drops the local variables of its statements on both sides. -/
theorem block {x y : EvalM σ Value} (body : P.Runs x y) :
    P.Runs (do
      let mark := (← get).env.size
      let last ← x
      modify fun m => { m with env := m.env.truncate mark }
      return last)
    (do
      let mark := (← get).env.size
      let last ← y
      modify fun m => { m with env := m.env.truncate mark }
      return last) := by
  intro locals s t shared related
  obtain ⟨outcome, locals', s', t', left, right, shared', related'⟩ :=
    body locals s t shared related
  have dropped (base : List (String × Value)) :
      (Env.mk (locals' ++ base)).truncate (Env.mk (locals ++ base)).size
        = ⟨locals'.drop (locals'.length - locals.length) ++ base⟩ := by
    have depth : (locals' ++ base).length - (locals ++ base).length
        = locals'.length - locals.length := by
      simp only [List.length_append]
      omega
    have within : locals'.length - locals.length ≤ locals'.length := by omega
    rw [Env.truncate, Env.size, depth, List.drop_append_of_le_length within]
  simp only [Bind.bind, ExceptT.bind, ExceptT.mk, StateT.bind, ExceptT.bindCont, run_get, left,
    right]
  cases outcome with
  | error e => exact ⟨_, locals', s', t', rfl, rfl, shared', related'⟩
  | ok v =>
      refine ⟨.ok v, locals'.drop (locals'.length - locals.length), s', t', ?_, ?_, ?_, related'⟩
      · rw [← dropped]
        rfl
      · rw [← dropped]
        rfl
      · exact fun v inside => shared' v (List.mem_of_mem_drop inside)

/-- Expressions without answers that have the same head, and the same target if they are
assignments, go the same way if their parts do. -/
theorem withChildren (agrees : P.Agrees registry) {e : Expr} {cs : List Expr}
    (left : answers e = none) (right : answers' (e.withChildren cs) = none)
    (unread : e.isReference = false) (reads : P.Reads e)
    (targets : ∀ target value, e = .assign target value → cs.head? = some target)
    (parts : List.Forall₂ (fun c c' => P.Runs (Eval.evalWith registry answers c)
      (Eval.evalWith registry answers' c')) e.children cs) :
    P.Runs (Eval.evalWith registry answers e)
      (Eval.evalWith registry answers' (e.withChildren cs)) := by
  rw [Eval.evalWith.eq_def, left, Eval.evalWith.eq_def registry answers', right]
  cases e with
  | literal value => exact pure _
  | ident name => exact lookup .body reads
  | column | interpolated => cases unread
  | call func args dotted =>
      dsimp only [Expr.withChildren]
      rw [Eval.evalItemsWith_eq, Eval.evalItemsWith_eq]
      refine (mapM parts).bind fun values => ?_
      exact ite dotted (broadcast (fun args => call agrees func args) values) (call agrees func values)
  | binary op l r dotted =>
      cases parts with
      | cons first parts =>
          cases parts with
          | cons second parts =>
              cases parts
              cases op
              case and => exact first.bind fun x => (lift _).bind fun b => ite b second (pure _)
              case or => exact first.bind fun x => (lift _).bind fun b => ite b (pure _) second
              all_goals
                refine first.bind fun x => second.bind fun y =>
                  ite dotted (broadcast (fun args => ?_) _) (lift _)
                split
                · exact lift _
                · exact throw _
  | unary op operand dotted =>
      cases parts with
      | cons first parts =>
          cases parts
          refine first.bind fun v => ite dotted (broadcast (fun args => ?_) _) (lift _)
          split
          · exact lift _
          · exact throw _
  | index base indices =>
      cases parts with
      | cons first later =>
          dsimp only [Expr.withChildren]
          rw [Eval.evalItemsWith_eq, Eval.evalItemsWith_eq]
          exact first.bind fun v => (mapM later).bind fun vs => lift _
  | conditional cond yes no =>
      cases parts with
      | cons first parts =>
          cases parts with
          | cons second parts =>
              cases parts with
              | cons third parts =>
                  cases parts
                  exact first.bind fun v => (lift _).bind fun b => ite b second third
  | vector items | tuple items =>
      dsimp only [Expr.withChildren]
      rw [Eval.evalItemsWith_eq, Eval.evalItemsWith_eq]
      exact (mapM parts).bind fun values => pure _
  | matrix rs =>
      refine (rows parts).bind fun values => ?_
      split
      · exact pure _
      · exact throw _
  | record fs => exact (fields parts).bind fun values => pure _
  | assign target value =>
      have kept := targets target value rfl
      cases parts with
      | cons _ parts =>
          cases parts with
          | cons second parts =>
              cases parts
              cases kept
              exact second.bind fun v => (assign reads v).bind fun _ => pure v
  | block items => exact block (statements .missing parts)
  | splat name => exact throw _
  | directed letters inner =>
      cases parts with
      | cons first parts =>
          cases parts
          exact throw _

end

end Runs

theorem all_names {P : Parallel σ} (shared : ∀ n, P.shared n) (e : Expr) : e.All P.Names := by
  intro n _
  cases n <;> first | exact shared _ | trivial

/-! ### Equal computations -/

/-- Two evaluations from the same variables and the same state. -/
def twice (σ : Type) : Parallel σ where
  shared _ := True
  left := []
  right := []
  states := Eq

theorem twice_agrees (registry : Registry σ) : (twice σ).Agrees registry where
  names _ _ := rfl
  calls func args s t same := by
    cases same
    exact ⟨rfl, rfl⟩

theorem twice_reads (e : Expr) : (twice σ).Reads e := by
  cases e with
  | ident name => rfl
  | assign target value => exact all_names (fun _ => trivial) target
  | _ => trivial

/-- Only equal computations go the same way from everywhere. -/
theorem runs_twice_iff {α : Type} {x y : EvalM σ α} : (twice σ).Runs x y ↔ x = y := by
  constructor
  · intro runs
    funext ⟨⟨vars⟩, s⟩
    obtain ⟨outcome, vars', s', t', left, right, -, same⟩ := runs vars s s (fun _ _ => trivial) rfl
    cases same
    simp only [twice, List.append_nil] at left right
    rw [left, right]
  · rintro rfl vars s t - same
    cases same
    obtain ⟨outcome, ⟨vars', t⟩, ran⟩ : ∃ outcome m, x ⟨⟨vars⟩, s⟩ = (outcome, m) := ⟨_, _, rfl⟩
    refine ⟨outcome, vars'.vars, t, t, ?_, ?_, fun _ _ => trivial, rfl⟩ <;>
      simpa [twice] using ran

end Parallel

namespace Eval

variable {registry : Registry σ}

/-- An evaluation goes the same way twice, from variables that agree on the names it looks up and
states that functions cannot tell apart, and adds variables of shared names. -/
theorem eval_runs_of_reads {P : Parallel σ} (agrees : P.Agrees registry) {e : Expr}
    (reads : e.All P.Reads) (setting : Setting) :
    P.Runs (eval registry setting e) (eval registry setting e) := by
  induction e using Expr.childInduction generalizing setting with
  | step e ih =>
      cases answered : settled registry setting e with
      | some answer =>
          cases e with
          | ident name => exact .lookup _ (reads _ (Expr.self_mem_nodes _))
          | column c => exact .lift _
          | interpolated inner =>
              have own : inner ∈ (Expr.interpolated inner).children := by simp [Expr.children]
              cases setting with
              | body => cases answered
              | selector scope =>
                  rw [eval]
                  exact ih inner own (reads.child own) _
              | sink scope schema =>
                  rw [eval]
                  exact (ih inner own (reads.child own) _).bind fun v => .lift _
          | _ => cases setting <;> cases answered
      | none =>
          have parts : List.Forall₂ (fun c c' => P.Runs
              (evalWith registry (settled registry setting) c)
              (evalWith registry (settled registry setting) c')) e.children e.children := by
            rw [List.forall₂_same]
            intro c child
            rw [← eval_eq_evalWith]
            exact ih c child (reads.child child) setting
          have whole := e.withChildren_children
          by_cases unread : e.isReference = false
          · have runs := Parallel.Runs.withChildren agrees answered (by rw [whole]; exact answered)
              unread (reads _ (Expr.self_mem_nodes _)) ?_ parts
            · rw [whole, ← eval_eq_evalWith] at runs
              exact runs
            · rintro target value rfl
              rfl
          · cases e with
            | column c => exact .lift _
            | interpolated inner =>
                cases setting with
                | body => exact .throw _
                | selector scope => cases answered
                | sink scope schema => cases answered
            | _ => exact absurd rfl unread

/-- The same where all names in the expression are shared. -/
theorem eval_runs {P : Parallel σ} (agrees : P.Agrees registry) {e : Expr} (names : e.All P.Names)
    (setting : Setting) : P.Runs (eval registry setting e) (eval registry setting e) :=
  eval_runs_of_reads agrees (fun _ inside => agrees.reads fun k inner =>
    names k (Expr.nodes_trans inner inside)) setting

end Eval

end TablePlan
