import TablePlan.Proofs.Argument.Body
import TablePlan.Proofs.Eval.Stepping
import TablePlan.Proofs.Grammar.Results

/-!
# What collecting assignments means

Statements can be collected exactly if their targets can, and each column is assigned to once. The
statements could also be run as they are written, while a value that is assigned to a column is
recorded under its name. The collected body does the same with local variables: those for the fields
hold what is recorded so far, and as no name that is written is one of them, nothing else sees them
or hides them.
-/

namespace TablePlan

variable {σ α β : Type}

namespace Collected

/-! ### Targets -/

/-- The column that a target names, if it is a name of a column. -/
def itemColumns : Expr → List String
  | .column (.name name) => [name]
  | _ => []

/-- The columns that a target names, from left to right. -/
def columns : Expr → List String
  | .tuple items => items.flatMap itemColumns
  | item => itemColumns item

/-- The columns that a statement assigns to. -/
def assigned : Expr → List String
  | .assign target _ => columns target
  | _ => []

/-- What may stand among several targets. -/
def IsItem : Expr → Prop
  | .column (.name _) | .ident _ | .splat _ => True
  | _ => False

/-- What may be assigned to. -/
def IsTarget : Expr → Prop
  | .column (.name _) | .ident _ => True
  | .tuple items => ∀ item ∈ items, IsItem item
  | _ => False

/-- What may be a statement: anything but an assignment to something else. -/
def IsStatement : Expr → Prop
  | .assign target _ => IsTarget target
  | _ => True

/-- All targets are allowed, and there are columns among them, none twice. -/
structure Collectable (statements : List Expr) : Prop where
  targets : ∀ s ∈ statements, IsStatement s
  some : statements.flatMap assigned ≠ []
  once : (statements.flatMap assigned).Nodup

/-- The computation succeeds where `ok` holds and the columns are new, and adds the columns. -/
structure Collects (ok : Prop) (columns : List String) (x : FieldsM α) : Prop where
  of_run : ∀ {seen a seen'}, seen.Nodup → x.run seen = .ok (a, seen') →
    ok ∧ seen' = seen ++ columns ∧ seen'.Nodup
  exists_run : ∀ {seen}, ok → (seen ++ columns).Nodup → ∃ a, x.run seen = .ok (a, seen ++ columns)

namespace Collects

variable {ok : Prop} {columns : List String}

theorem pure (a : α) : Collects True [] (pure a : FieldsM α) where
  of_run nodup ran := by
    cases ran
    exact ⟨trivial, (List.append_nil _).symm, nodup⟩
  exists_run _ _ := ⟨a, by rw [List.append_nil]; rfl⟩

theorem throw (e : ArgumentError) : Collects False columns (throw e : FieldsM α) where
  of_run _ ran := nomatch ran
  exists_run h := h.elim

theorem bind {ok' : Prop} {columns' : List String} {x : FieldsM α} {f : α → FieldsM β}
    (first : Collects ok columns x) (second : ∀ a, Collects ok' columns' (f a)) :
    Collects (ok ∧ ok') (columns ++ columns') (x >>= f) where
  of_run nodup ran := by
    obtain ⟨a, s, ran, later⟩ := some_of_bind ran
    obtain ⟨fits, rfl, nodup⟩ := first.of_run nodup ran
    obtain ⟨fits', rfl, nodup⟩ := (second a).of_run nodup later
    exact ⟨⟨fits, fits'⟩, List.append_assoc .., nodup⟩
  exists_run {seen} fits new := by
    rw [← List.append_assoc] at new ⊢
    obtain ⟨a, ran⟩ := first.exists_run fits.1 new.of_append_left
    obtain ⟨b, later⟩ := (second a).exists_run fits.2 new
    exact ⟨b, by rw [StateT.run_bind, ran]; exact later⟩

theorem map {x : FieldsM α} (h : Collects ok columns x) (f : α → β) :
    Collects ok columns (do return f (← x)) := by
  simpa only [and_true, List.append_nil] using h.bind fun a => pure (f a)

theorem mapM {f : α → FieldsM β} {ok : α → Prop} {columns : α → List String} {as : List α}
    (each : ∀ a ∈ as, Collects (ok a) (columns a) (f a)) :
    Collects (∀ a ∈ as, ok a) (as.flatMap columns) (as.mapM f) := by
  induction as with
  | nil => simpa using pure ([] : List β)
  | cons a rest ih =>
      rw [List.forall_mem_cons] at each
      rw [List.mapM_cons, List.flatMap_cons, List.forall_mem_cons]
      exact each.1.bind fun b => (ih each.2).map (b :: ·)

end Collects

theorem addField_collects (name : String) : Collects True [name] (addField name) where
  of_run {seen _ _} nodup ran := by
    rw [addField_eq] at ran
    split at ran <;> cases ran
    rename_i new
    exact ⟨trivial, rfl, nodup.append (List.nodup_singleton name) (List.disjoint_singleton.mpr new)⟩
  exists_run {seen} _ new := by
    have fresh : name ∉ seen := List.disjoint_singleton.mp (List.disjoint_of_nodup_append new)
    exact ⟨_, by rw [addField_eq, if_neg fresh]⟩

theorem tupleItem_collects (item : Expr) :
    Collects (IsItem item) (itemColumns item) (tupleItem item) := by
  cases item with
  | column c =>
      cases c with
      | name name => exact addField_collects name
      | position i => exact .throw _
  | ident | splat => exact .pure _
  | _ => exact .throw _

theorem target_collects (t : Expr) : Collects (IsTarget t) (columns t) (target t) := by
  cases t with
  | column c =>
      cases c with
      | name name => exact addField_collects name
      | position i => exact .throw _
  | tuple items => exact (Collects.mapM fun item _ => tupleItem_collects item).map Expr.tuple
  | ident => exact .pure _
  | _ => exact .throw _

theorem statement_collects (s : Expr) :
    Collects (IsStatement s) (assigned s) (statement s) := by
  cases s with
  | assign t value => exact (target_collects t).map fun t' => Expr.assign t' value
  | _ => exact .pure _

theorem statements_collect (statements : List Expr) :
    Collects (∀ s ∈ statements, IsStatement s) (statements.flatMap assigned)
      (statements.mapM statement) :=
  .mapM fun s _ => statement_collects s

/-! ### Collected bodies -/

section

variable {body : Expr} {statements : List Expr} {c : Collected}

theorem ofBody_eq (split : statementsOf body = .ok statements) {collected : List Expr}
    {fields : List String} (ran : (statements.mapM statement).run [] = .ok (collected, fields)) :
    ofBody body = if fields.isEmpty
      then .error (refused (.block collected) "no column assignments to collect")
      else .ok ⟨.block (collected
        ++ [.record (fields.map fun name => (name, .ident (fieldLocal name)))]), fields⟩ := by
  unfold ofBody
  rw [split]
  change ((statements.mapM statement).run [] >>= _) = _
  rw [ran]
  cases fields <;> rfl

theorem ofBody_ok (split : statementsOf body = .ok statements) (h : ofBody body = .ok c) :
    Collectable statements ∧ c.fields = statements.flatMap assigned
      ∧ ∃ collected, (statements.mapM statement).run [] = .ok (collected, c.fields)
        ∧ c.body = .block (collected
          ++ [.record (c.fields.map fun name => (name, .ident (fieldLocal name)))]) := by
  obtain ⟨_, split', h'⟩ := ok_of_bind h
  cases split.symm.trans split'
  obtain ⟨⟨collected, fields⟩, ran, -⟩ := ok_of_bind h'
  rw [ofBody_eq split ran] at h
  split at h <;> cases h
  rename_i some
  obtain ⟨targets, rfl, once⟩ := (statements_collect statements).of_run List.nodup_nil ran
  rw [List.nil_append] at some once ran ⊢
  exact ⟨⟨targets, mt List.isEmpty_iff.mpr some, once⟩, rfl, collected, ran, rfl⟩

theorem exists_ofBody_iff (split : statementsOf body = .ok statements) :
    (∃ c, ofBody body = .ok c) ↔ Collectable statements := by
  refine ⟨fun ⟨c, h⟩ => (ofBody_ok split h).1, fun h => ?_⟩
  obtain ⟨collected, ran⟩ := (statements_collect statements).exists_run h.targets
    (show ([] ++ statements.flatMap assigned).Nodup from h.once)
  rw [List.nil_append] at ran
  exact ⟨_, by rw [ofBody_eq split ran, if_neg (mt List.isEmpty_iff.mp h.some)]⟩

end

/-! ### Statements as they are written -/

/-- Statements that are run while values are recorded under the names of columns. -/
abbrev RecordM (σ : Type) := StateT (List (String × Value)) (EvalM σ)

/-- Give a value to a target. A column has it recorded under its name. -/
def give : Expr → Value → RecordM σ Unit
  | .column (.name name), v => modify (· ++ [(name, v)])
  | other, v => liftM (Eval.assign other v : EvalM σ Unit)

/-- Give values to several targets, one by one. A splat takes those that are left. -/
def giveItems (fixed position : Nat) : List Expr → List Value → RecordM σ Unit
  | [], _ => return
  | .splat name :: rest, elements =>
    if rest.isEmpty then liftM (EvalM.push name (.list elements) : EvalM σ Unit)
    else throw (.unsupported ("`" ++ name ++ "...` must be the last destructuring target"))
  | _ :: _, [] => throw (.destructureMismatch fixed position)
  | item :: rest, v :: elements => do
    give item v
    giveItems fixed (position + 1) rest elements

/-- Give a value to the target of an assignment. Several targets share its elements. -/
def giveTarget : Expr → Value → RecordM σ Unit
  | .tuple items, v => do
    let elements ← Eval.destructured v
    let fixed := (items.filter fun item => !Eval.isSplat item).length
    if elements.length < fixed then throw (.destructureMismatch fixed elements.length)
    giveItems fixed 0 items elements
  | other, v => give other v

/-- Run a statement as it is written. -/
def runStatement (registry : Registry σ) : Expr → RecordM σ Unit
  | .assign t value => do giveTarget t (← Eval.eval registry .body value)
  | other => do
    let _ ← Eval.eval registry .body other
    return

/-- What is recorded when statements are run once each, in order, from given variables. -/
def runStatements (registry : Registry σ) (statements : List Expr) (env : Env) :
    StateM σ (Except EvalError (List (String × Value))) := fun s =>
  let (outcome, m) := ((statements.forM (runStatement registry)).run []).run ⟨env, s⟩
  (outcome.map Prod.snd, m.state)

/-! ### Recorded values and local variables -/

/-- No local variable for a field has this name. -/
def Unclaimed (name : String) : Prop :=
  ∀ field, name ≠ fieldLocal field

theorem fieldLocal_injective {f g : String} (h : fieldLocal f = fieldLocal g) : f = g := by
  simpa [fieldLocal] using h

/-- The local variables for fields hold what is recorded. Nothing else is different. -/
structure Tracks (recorded : List (String × Value)) (m m' : Machine σ) : Prop where
  state : m'.state = m.state
  names : ∀ name, Unclaimed name → m'.env.get? name = m.env.get? name
  fields : ∀ v ∈ recorded, m'.env.get? (fieldLocal v.1) = some v.2

/-- Two machines run in parallel with respect to the names that are no locals for fields. -/
def beside (m m' : Machine σ) : Parallel σ where
  shared := Unclaimed
  left := m.env.vars
  right := m'.env.vars
  states := Eq

namespace Tracks

variable {recorded : List (String × Value)} {m m' : Machine σ}

theorem agrees (h : Tracks recorded m m') (registry : Registry σ) :
    (beside m m').Agrees registry where
  names n unclaimed := (h.names n unclaimed).symm
  calls func args s t same := by
    cases same
    exact ⟨rfl, rfl⟩

theorem lookup_locals_none {locals : List (String × Value)} (shared : ∀ v ∈ locals, Unclaimed v.1)
    (field : String) : locals.lookup (fieldLocal field) = none := by
  refine List.lookup_eq_none_iff.mpr fun v inside => ?_
  simpa using (shared v inside field).symm

/-- Local variables that are added to both sides are no locals for fields. -/
theorem add (h : Tracks recorded m m') {locals : List (String × Value)}
    (shared : ∀ v ∈ locals, Unclaimed v.1) (s : σ) :
    Tracks recorded ⟨⟨locals ++ m.env.vars⟩, s⟩ ⟨⟨locals ++ m'.env.vars⟩, s⟩ where
  state := rfl
  names name unclaimed := by
    have same := h.names name unclaimed
    simp only [Env.get?] at same ⊢
    rw [List.lookup_append, List.lookup_append, same]
  fields v inside := by
    have held := h.fields v inside
    simp only [Env.get?] at held ⊢
    rw [List.lookup_append, lookup_locals_none shared, Option.none_or, held]

/-- A value is recorded on one side and held by the local for its field on the other. -/
theorem record (h : Tracks recorded m m') {name : String} (new : name ∉ recorded.map Prod.fst)
    (v : Value) :
    Tracks (recorded ++ [(name, v)]) m { m' with env := m'.env.push (fieldLocal name) v } where
  state := h.state
  names other unclaimed := by
    rw [Env.get?_push, if_neg (by simpa using unclaimed name), h.names other unclaimed]
  fields w inside := by
    rw [Env.get?_push]
    obtain old | last := List.mem_append.mp inside
    · have other : fieldLocal w.1 ≠ fieldLocal name := fun same =>
        new (List.mem_map.mpr ⟨w, old, fieldLocal_injective same⟩)
      rw [if_neg (by simpa using other), h.fields w old]
    · obtain rfl := List.mem_singleton.mp last
      simp

end Tracks

/-- Where columns are recorded, the second computation has locals hold the values, from some fields to
others. Both come to the same. -/
def Mirrors (seen seen' : List String) (x : RecordM σ α) (y : EvalM σ α) : Prop :=
  ∀ recorded m m', recorded.map Prod.fst = seen → Tracks recorded m m' →
    (∃ e m₁ m₁', x recorded m = (.error e, m₁) ∧ y m' = (.error e, m₁') ∧ m₁'.state = m₁.state)
    ∨ ∃ a recorded₁ m₁ m₁', x recorded m = (.ok (a, recorded₁), m₁) ∧ y m' = (.ok a, m₁')
      ∧ recorded₁.map Prod.fst = seen' ∧ Tracks recorded₁ m₁ m₁'

namespace Mirrors

variable {seen seen₁ seen' : List String}

theorem pure (a : α) : Mirrors seen seen (pure a : RecordM σ α) (pure a) :=
  fun recorded m m' names tracks => .inr ⟨a, recorded, m, m', rfl, rfl, names, tracks⟩

theorem throw (e : EvalError) : Mirrors seen seen' (throw e : RecordM σ α) (throw e) :=
  fun _ m m' _ tracks => .inl ⟨e, m, m', rfl, rfl, tracks.state⟩

theorem bind {x : RecordM σ α} {y : EvalM σ α} {f : α → RecordM σ β} {g : α → EvalM σ β}
    (first : Mirrors seen seen₁ x y) (second : ∀ a, Mirrors seen₁ seen' (f a) (g a)) :
    Mirrors seen seen' (x >>= f) (y >>= g) := by
  intro recorded m m' names tracks
  change (∃ e m₁ m₁', (x recorded >>= fun p => f p.1 p.2) m = (.error e, m₁) ∧ _) ∨
    ∃ b recorded₁ m₁ m₁', (x recorded >>= fun p => f p.1 p.2) m = (.ok (b, recorded₁), m₁) ∧ _
  obtain ⟨e, m₁, m₁', left, right, same⟩ | ⟨a, recorded₁, m₁, m₁', left, right, names₁, tracks₁⟩ :=
    first recorded m m' names tracks
  · rw [bind_of_error left, bind_of_error right]
    exact .inl ⟨e, m₁, m₁', rfl, rfl, same⟩
  · rw [bind_of_ok left, bind_of_ok right]
    exact second a recorded₁ m₁ m₁' names₁ tracks₁

/-- A computation that sees no local for a field goes the same way on both sides. -/
theorem lift {x : EvalM σ α} (runs : ∀ m m' : Machine σ, (∀ registry, (beside m m').Agrees registry) →
    (beside m m').Runs x x) : Mirrors seen seen (liftM x) x := by
  intro recorded m m' names tracks
  obtain ⟨outcome, locals, s, t, left, right, shared, rfl⟩ :=
    runs m m' tracks.agrees [] m.state m'.state nofun tracks.state.symm
  have left : x m = (outcome, ⟨⟨locals ++ m.env.vars⟩, s⟩) := left
  have right : x m' = (outcome, ⟨⟨locals ++ m'.env.vars⟩, s⟩) := right
  -- On the left what is recorded is passed on.
  have lifted : (liftM x : RecordM σ α) recorded = x >>= fun a => Pure.pure (a, recorded) := rfl
  rw [lifted]
  cases outcome with
  | error e =>
      rw [bind_of_error left]
      exact .inl ⟨e, _, _, rfl, right, rfl⟩
  | ok a =>
      rw [bind_of_ok left]
      exact .inr ⟨a, recorded, _, _, rfl, right, names, tracks.add shared s⟩

theorem record {name : String} (new : name ∉ seen) (v : Value) :
    Mirrors seen (seen ++ [name]) (modify (· ++ [(name, v)]) : RecordM σ Unit)
      (EvalM.push (fieldLocal name) v) := by
  rintro recorded m m' rfl tracks
  exact .inr ⟨(), _, m, _, rfl, rfl, by simp, tracks.record new v⟩

end Mirrors

/-! ### Targets and statements -/

section

variable {seen seen' : List String}

/-- The names that are looked up or bound in an expression are no locals for fields. -/
def Visible (e : Expr) : Prop :=
  e.All fun n => ∀ name, n = .ident name ∨ n = .splat name → Unclaimed name

theorem Visible.names {e : Expr} (h : Visible e) (m m' : Machine σ) : e.All (beside m m').Names := by
  intro n node
  cases n with
  | ident name => exact h _ node name (.inl rfl)
  | splat name => exact h _ node name (.inr rfl)
  | _ => trivial

theorem mirrors_eval (registry : Registry σ) {e : Expr} (visible : Visible e) :
    Mirrors seen seen (liftM (Eval.eval registry .body e) : RecordM σ Value)
      (Eval.eval registry .body e) :=
  .lift fun m m' agrees => Eval.eval_runs (agrees registry) (visible.names m m') .body

theorem mirrors_push {name : String} (unclaimed : Unclaimed name) (v : Value) :
    Mirrors seen seen (liftM (EvalM.push name v : EvalM σ Unit) : RecordM σ Unit)
      (EvalM.push name v) :=
  .lift fun _ _ _ => .push unclaimed v

theorem mirrors_item {item item' : Expr} (h : (tupleItem item).run seen = .ok (item', seen'))
    (single : Eval.isSplat item = false) (visible : Visible item) (v : Value) :
    Mirrors seen seen' (give item v : RecordM σ Unit) (Eval.assign item' v) := by
  unfold tupleItem at h
  split at h
  · obtain ⟨new, rfl, rfl⟩ := addField_ok h
    rw [give, Eval.assign]
    exact .record new v
  · cases h
    rw [give, Eval.assign]
    · exact mirrors_push (visible _ (Expr.self_mem_nodes _) _ (.inl rfl)) v
    · simp
  · cases single
  · cases h

theorem isSplat_of_tupleItem {item item' : Expr} (h : (tupleItem item).run seen = .ok (item', seen')) :
    Eval.isSplat item' = Eval.isSplat item := by
  unfold tupleItem at h
  split at h
  · rw [(addField_ok h).2.1]
    rfl
  all_goals cases h
  all_goals rfl

/-- Collecting leaves as many targets of a single element. -/
theorem count_fixed {items items' : List Expr}
    (h : (items.mapM tupleItem).run seen = .ok (items', seen')) :
    (items'.filter fun item => !Eval.isSplat item).length
      = (items.filter fun item => !Eval.isSplat item).length := by
  have same : items'.map Eval.isSplat = items.map Eval.isSplat := by
    rw [← List.forall₂_eq_eq_eq, List.forall₂_map_left_iff, List.forall₂_map_right_iff]
    exact (run_mapM_ok h).flip.imp fun _ _ ⟨_, _, ran⟩ => isSplat_of_tupleItem ran
  have counted (es : List Expr) : (es.filter fun item => !Eval.isSplat item).length
      = ((es.map Eval.isSplat).filter (!·)).length := by
    rw [List.filter_map, List.length_map]
    rfl
  rw [counted, counted, same]

theorem mirrors_items {items items' : List Expr}
    (h : (items.mapM tupleItem).run seen = .ok (items', seen')) (visible : ∀ item ∈ items, Visible item)
    (fixed position : Nat) (elements : List Value) :
    Mirrors seen seen' (giveItems fixed position items elements : RecordM σ Unit)
      (Eval.assignItems fixed position items' elements) := by
  induction items generalizing seen items' position elements with
  | nil =>
      cases h
      rw [giveItems]
      exact .pure ()
  | cons item rest ih =>
      rw [List.mapM_cons] at h
      obtain ⟨item', s₁, first, h⟩ := some_of_bind h
      obtain ⟨rest', s₂, later, h⟩ := some_of_bind h
      cases h
      rw [List.forall_mem_cons] at visible
      have same := isSplat_of_tupleItem first
      cases single : Eval.isSplat item with
      | true =>
          obtain ⟨name, rfl⟩ : ∃ name, item = .splat name := by
            cases item <;> first | exact ⟨_, rfl⟩ | cases single
          cases first
          rw [giveItems, Eval.assignItems]
          -- Only the last target may be a splat, on both sides.
          cases rest with
          | nil =>
              cases later
              exact mirrors_push (visible.1 _ (Expr.self_mem_nodes _) name (.inr rfl)) _
          | cons other rest =>
              cases rest' with
              | nil => cases (run_mapM_ok later).length_eq
              | cons other' rest' => exact .throw _
      | false =>
          have notSplat (name : String) : item ≠ .splat name := by
            rintro rfl
            cases single
          have notSplat' (name : String) : item' ≠ .splat name := by
            rintro rfl
            cases same.trans single
          cases elements with
          | nil =>
              rw [giveItems, Eval.assignItems]
              · exact .throw _
              · exact notSplat'
              · exact notSplat
          | cons v elements =>
              rw [giveItems, Eval.assignItems]
              · exact (mirrors_item first single visible.1 v).bind fun _ => ih later visible.2 _ _
              · exact notSplat'
              · exact notSplat

theorem mirrors_target {t t' : Expr} (h : (target t).run seen = .ok (t', seen')) (visible : Visible t)
    (v : Value) : Mirrors seen seen' (giveTarget t v : RecordM σ Unit) (Eval.assign t' v) := by
  unfold target at h
  split at h
  · obtain ⟨new, rfl, rfl⟩ := addField_ok h
    rw [giveTarget, give, Eval.assign]
    · exact .record new v
    · simp
  · rename_i items
    obtain ⟨items', s₁, each, h⟩ := some_of_bind h
    cases h
    rw [giveTarget, Eval.assign, count_fixed each]
    refine Mirrors.bind (.lift fun _ _ _ => .lift _) fun elements => ?_
    dsimp only
    split
    · exact .throw _
    · exact mirrors_items each (fun item inside => visible.child inside) _ _ _
  · cases h
    rw [giveTarget, give, Eval.assign]
    · exact mirrors_push (visible _ (Expr.self_mem_nodes _) _ (.inl rfl)) v
    · simp
    · simp
  · cases h

/-- A statement of a body is evaluated for its effects alone. -/
def step (registry : Registry σ) (s : Expr) : EvalM σ Unit := do
  let _ ← Eval.eval registry .body s
  return

theorem step_assign (registry : Registry σ) (t value : Expr) :
    step registry (.assign t value)
      = Eval.eval registry .body value >>= fun v => Eval.assign t v := by
  simp [step, Eval.eval]

theorem mirrors_statement (registry : Registry σ) {e e' : Expr}
    (h : (statement e).run seen = .ok (e', seen')) (visible : Visible e) :
    Mirrors seen seen' (runStatement registry e) (step registry e') := by
  unfold statement at h
  split at h
  · rename_i t value
    obtain ⟨t', s₁, collected, h⟩ := some_of_bind h
    cases h
    have parts : Visible t ∧ Visible value :=
      ⟨visible.child (by simp [Expr.children]), visible.child (by simp [Expr.children])⟩
    rw [runStatement, step_assign]
    exact (mirrors_eval registry parts.2).bind fun v => mirrors_target collected parts.1 v
  · cases h
    rw [runStatement]
    · exact (mirrors_eval registry visible).bind fun _ => .pure ()
    · assumption

theorem mirrors_statements (registry : Registry σ) {statements collected : List Expr}
    (h : (statements.mapM statement).run seen = .ok (collected, seen'))
    (visible : ∀ s ∈ statements, Visible s) :
    Mirrors seen seen' (statements.forM (runStatement registry)) (collected.forM (step registry)) := by
  induction statements generalizing seen collected with
  | nil =>
      cases h
      exact .pure ()
  | cons s rest ih =>
      rw [List.mapM_cons] at h
      obtain ⟨s', s₁, first, h⟩ := some_of_bind h
      obtain ⟨rest', s₂, later, h⟩ := some_of_bind h
      cases h
      rw [List.forall_mem_cons] at visible
      exact (mirrors_statement registry first visible.1).bind fun _ => ih later visible.2

end

/-! ### The record -/

section

variable (registry : Registry σ)

/-- Statements before the last are evaluated for their effects. -/
theorem evalStatements_concat (before : Value) (statements : List Expr) (e : Expr) :
    Eval.evalStatements registry .body before (statements ++ [e])
      = statements.forM (step registry) >>= fun _ => Eval.eval registry .body e := by
  induction statements generalizing before with
  | nil => simp [Eval.evalStatements]
  | cons s rest ih =>
      change (Eval.eval registry .body s >>= fun v =>
        Eval.evalStatements registry .body v (rest ++ [e])) = _
      simp [ih, step]

/-- Locals for fields give what they hold. -/
theorem evalFields_locals {held : List (String × Value)} {m : Machine σ}
    (each : ∀ v ∈ held, m.env.get? (fieldLocal v.1) = some v.2) :
    Eval.evalFields registry .body (held.map fun v => (v.1, .ident (fieldLocal v.1))) m
      = (.ok held, m) := by
  induction held with
  | nil => rfl
  | cons v rest ih =>
      rw [List.forall_mem_cons] at each
      rw [List.map_cons, Eval.evalFields, bind_of_ok (Eval.eval_ident_of_get? each.1),
        bind_of_ok (ih each.2)]
      rfl

/-- After statements that mirror others, the record of the fields holds what these record. -/
theorem eval_collected {statements collected : List Expr} {fields : List String}
    (mirrors : Mirrors [] fields (statements.forM (runStatement registry))
      (collected.forM (step registry))) (env : Env) (s : σ) :
    let e := Expr.block (collected
      ++ [.record (fields.map fun name => (name, .ident (fieldLocal name)))])
    (Eval.run registry .body e env s).1.1 = (runStatements registry statements env s).1.map .record
      ∧ (Eval.run registry .body e env s).2 = (runStatements registry statements env s).2
      ∧ ∀ recorded, (runStatements registry statements env s).1 = .ok recorded →
        recorded.map Prod.fst = fields := by
  intro e
  have start : Tracks [] (⟨env, s⟩ : Machine σ) ⟨env, s⟩ := ⟨rfl, fun _ _ => rfl, nofun⟩
  obtain ⟨error, m, m', left, right, same⟩ | ⟨⟨⟩, recorded, m, m', left, right, rfl, tracks⟩ :=
    mirrors [] ⟨env, s⟩ ⟨env, s⟩ rfl start
  · have written : runStatements registry statements env s = (.error error, m.state) := by
      simp only [runStatements, ExceptT.run, StateT.run, left]
      rfl
    have whole : Eval.eval registry .body e ⟨env, s⟩ = (.error error, m') := by
      refine Eval.eval_block_of_error ?_
      rw [evalStatements_concat]
      exact bind_of_error right
    have ran : Eval.run registry .body e env s = ((.error error, m'.env), m'.state) := by
      simp only [Eval.run, ExceptT.run, whole]
    rw [ran, written]
    exact ⟨rfl, same, nofun⟩
  · have written : runStatements registry statements env s = (.ok recorded, m.state) := by
      simp only [runStatements, ExceptT.run, StateT.run, left]
      rfl
    have record : Eval.eval registry .body (.record
        ((recorded.map Prod.fst).map fun name => (name, .ident (fieldLocal name)))) m'
        = (.ok (.record recorded), m') := by
      rw [List.map_map, Eval.eval]
      exact bind_of_ok (evalFields_locals registry tracks.fields)
    have whole : Eval.eval registry .body e ⟨env, s⟩
        = (.ok (.record recorded), ⟨m'.env.truncate env.size, m'.state⟩) := by
      refine Eval.eval_block_of_ok ?_
      rw [evalStatements_concat, bind_of_ok right]
      exact record
    have ran : Eval.run registry .body e env s
        = ((.ok (.record recorded), m'.env.truncate env.size), m'.state) := by
      simp only [Eval.run, ExceptT.run, whole]
    rw [ran, written]
    refine ⟨rfl, tracks.state, ?_⟩
    rintro _ ⟨⟩
    rfl

end

end Collected

/-! ### Collecting from a text -/

theorem made_visible : Expr.Made fun n => ∀ name, n = .ident name ∨ n = .splat name →
    Collected.Unclaimed name := by
  constructor
  case ident | splat =>
    intro name written other is
    cases is <;> cases ‹_ = _›
    exact written.isFresh.field
  all_goals
    intros
    rename_i is
    cases is <;> cases ‹_ = _›

namespace Collected

/-- The assignments of a body are collected exactly if they can be, and the fields are then the columns
they assign to. From whatever variables and state of the functions, the collected body comes to a
record of what would be recorded under these columns, or fails like the statements. It does not
matter whether the statements name columns elsewhere: these fail in the same way. -/
theorem collected_body_records {body : Expr} (written : body.Written) {statements : List Expr}
    (split : statementsOf body = .ok statements) :
    ((∃ c, ofBody body = .ok c) ↔ Collectable statements)
    ∧ ∀ c, ofBody body = .ok c → c.fields = statements.flatMap assigned ∧ c.fields.Nodup
      ∧ ∀ {σ : Type} (registry : Registry σ) (env : Env) (s : σ),
        (Eval.run registry .body c.body env s).1.1
            = (runStatements registry statements env s).1.map .record
        ∧ (Eval.run registry .body c.body env s).2 = (runStatements registry statements env s).2
        ∧ ∀ recorded, (runStatements registry statements env s).1 = .ok recorded →
          recorded.map Prod.fst = c.fields := by
  refine ⟨exists_ofBody_iff split, fun c h => ?_⟩
  obtain ⟨collectable, fields, collected, ran, whole⟩ := ofBody_ok split h
  refine ⟨fields, fields ▸ collectable.once, fun registry env s => ?_⟩
  have visible := all_of_statementsOf split (written.all made_visible)
  rw [whole]
  exact eval_collected registry (mirrors_statements registry ran visible) env s

/-- A block that takes a list apart, uses the local name for the rest and names two columns. -/
theorem destructured_body_records :
    ∃ body c, Expr.read "begin :a, rest... = [1, 2, 3]; :b = rest end" = .ok body
      ∧ ofBody body = .ok c ∧ c.fields = ["a", "b"]
      ∧ (Eval.run (Registry.empty (σ := Unit) "1") .body c.body .empty ()).1.1
        = .ok (.record [("a", .int 1), ("b", .list [.int 2, .int 3])]) := by
  let statements : List Expr :=
    [.assign (.tuple [.column (.name "a"), .splat "rest"])
      (.vector [.literal (.int 1), .literal (.int 2), .literal (.int 3)]),
      .assign (.column (.name "b")) (.ident "rest")]
  have read : Expr.read "begin :a, rest... = [1, 2, 3]; :b = rest end"
      = .ok (.block statements) := by cbv
  have general := collected_body_records (.alone read)
    (show statementsOf (.block statements) = .ok statements from rfl)
  have collectable : Collectable statements :=
    ⟨by simp [statements, IsStatement, IsTarget, IsItem], List.cons_ne_nil _ _, by decide⟩
  obtain ⟨c, made⟩ := general.1.mpr collectable
  obtain ⟨fields, -, runs⟩ := general.2 c made
  have ran := (runs (Registry.empty (σ := Unit) "1") .empty ()).1
  exact ⟨_, c, read, made, fields, ran⟩

end Collected

end TablePlan
