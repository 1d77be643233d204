import Mathlib.Data.List.InsertIdx
import TablePlan.Proofs.Eval.Stepping
import TablePlan.Proofs.Plan.Inversion
import TablePlan.Proofs.Value.Exchange
import TablePlan.Service.Explain

/-!
# Options from the variables of a request

An option that names a variable of the request has the document of that variable in the answer.
Evaluating it cannot fail and leaves the state of the functions alone, so the call is explained, or
not, as it is without the option.
-/

namespace TablePlan

variable {σ : Type}

/-- The call without the option at this position. -/
def Call.withoutOption (call : Call) (n : Nat) : Call :=
  { call with arguments.options := call.arguments.options.eraseIdx n }

namespace ExplainRequest

/-- A variable of the caller is the value of the last member of its name. -/
theorem get?_env (r : ExplainRequest) (v : String) :
    r.env.get? v = ((Json.object r.scope).member? v).map Value.ofJson := by
  rw [← Json.lookup_sortMembers]
  exact lookup_map_snd Value.ofJson _ v

end ExplainRequest

namespace Plan

section

variable {registry : Registry σ} {schema : Schema} {scope : Scope} {k v : String} {x : Value}

/-- A variable of the caller as a target is its value. -/
theorem evaluateFor_ident (shown : Expr) (captured : scope.get? v = some x) :
    evaluateFor registry (.sink scope schema) shown (.ident v) = pure x := by
  have found (s : σ) : (Eval.eval registry (.sink scope schema) (.ident v)).run ⟨.empty, s⟩
      = (.ok x, ⟨.empty, s⟩) := Eval.eval_ident_of_scope rfl rfl captured
  have ran : Eval.run registry (.sink scope schema) (.ident v) .empty
      = pure (.ok x, .empty) := by
    funext s
    rw [Eval.run, found]
    rfl
  rw [evaluateFor, ran]
  rfl

/-- One more option that names a variable of the caller. -/
theorem bindOptions_insert (captured : scope.get? v = some x) (before after : List (String × Expr)) :
    bindOptions registry schema scope (before ++ (k, .ident v) :: after)
      = (·.insertIdx before.length (k, x)) <$> bindOptions registry schema scope (before ++ after) := by
  have accepted : (liftM ((Except.ok x).mapError (PlanError.option k)) : PlanM σ Value) = pure x :=
    rfl
  induction before with
  | nil => simp [bindOptions, evaluateFor_ident _ captured, accepted]
  | cons o rest ih => simp [bindOptions, ih]

theorem length_of_bindOptions {options : List (String × Expr)} {values : List (String × Value)}
    {s s' : σ} (h : (bindOptions registry schema scope options).run s = (.ok values, s')) :
    values.length = options.length := by
  induction options generalizing values s s' with
  | nil =>
      obtain ⟨rfl, -⟩ := run_of_pure h
      rfl
  | cons o rest ih =>
      obtain ⟨_, _, _, h⟩ := run_of_bind h
      obtain ⟨_, _, _, h⟩ := run_of_bind h
      obtain ⟨others, _, later, h⟩ := run_of_bind h
      obtain ⟨rfl, -⟩ := run_of_pure h
      rw [List.length_cons, List.length_cons, ih later]

end

/-- The plan of the call without the option at this position. -/
def withoutOption (plan : Plan σ) (n : Nat) : Plan σ :=
  { plan with options := plan.options.eraseIdx n }

theorem ofCall_withoutOption (registry : Registry σ) (call : Call) (n : Nat) :
    ofCall registry (call.withoutOption n) = (ofCall registry call).map (·.withoutOption n) := by
  simp only [ofCall, ofArguments, Call.withoutOption]
  change (call.kind?.mapError PlanError.unknownKind >>= _) = _
  cases call.kind?.mapError PlanError.unknownKind with
  | error e => rfl
  | ok kind =>
      change (expandBlocks 0 call.arguments.positional >>= _)
        = (expandBlocks 0 call.arguments.positional >>= _).map _
      cases expandBlocks 0 call.arguments.positional with
      | error e => rfl
      | ok args =>
          change (planArguments registry kind 0 args >>= _)
            = (planArguments registry kind 0 args >>= _).map _
          cases planArguments registry kind 0 args <;> rfl

end Plan

/-- The pipeline with one more option at this position. -/
def Pipeline.insertOption (p : Pipeline σ) (n : Nat) (option : String × Value) : Pipeline σ :=
  { p with options := p.options.insertIdx n option }

/-- The summary with one more option at this position. -/
def Summary.insertOption (s : Summary) (n : Nat) (option : String × Json) : Summary :=
  { s with options := s.options.insertIdx n option }

theorem Pipeline.summary_insertOption (p : Pipeline σ) (n : Nat) (k : String) (x : Value) :
    (p.insertOption n (k, x)).summary = p.summary.insertOption n (k, x.toJson.canonical) := by
  simp only [summary, insertOption, Summary.insertOption, List.map_insertIdx]

/-- The answer with one more option in the summary. -/
def ExplainResponse.insertOption (r : ExplainResponse) (n : Nat) (option : String × Json) :
    ExplainResponse :=
  let plan := r.plan.insertOption n option
  ⟨r.requestId, plan.fingerprint, plan⟩

namespace Plan

section

variable {plan : Plan σ} {schema : Schema} {scope : Scope} {n : Nat} {k v : String} {x : Value}

/-- Binding a plan is binding it without an option that names a variable of the caller. -/
theorem bind_insertOption (option : plan.options[n]? = some (k, .ident v))
    (captured : scope.get? v = some x) : plan.bind schema scope
      = (·.insertOption n (k, x)) <$> (plan.withoutOption n).bind schema scope := by
  obtain ⟨inside, here⟩ := List.getElem?_eq_some_iff.mp option
  have options : plan.options = plan.options.take n ++ (k, .ident v) :: plan.options.drop (n + 1) := by
    rw [← here, List.getElem_cons_drop, List.take_append_drop]
  have length : (plan.options.take n).length = n := List.length_take_of_le inside.le
  have bound : bindOptions plan.registry schema scope
      (plan.options.take n ++ (k, .ident v) :: plan.options.drop (n + 1)) = _ :=
    bindOptions_insert captured _ _
  rw [← options, length, ← List.eraseIdx_eq_take_drop_succ] at bound
  simp [bind, withoutOption, bound, Pipeline.insertOption]

/-- A bound plan has the value of a variable of the caller where an option names it. -/
theorem option_of_bind {pipeline : Pipeline σ} {s s' : σ}
    (option : plan.options[n]? = some (k, .ident v)) (captured : scope.get? v = some x)
    (bound : (plan.bind schema scope).run s = (.ok pipeline, s')) :
    pipeline.options[n]? = some (k, x) := by
  rw [bind_insertOption option captured, map_eq_pure_bind] at bound
  obtain ⟨less, _, others, made⟩ := run_of_bind bound
  obtain ⟨triples, _, _, others⟩ := run_of_bind others
  obtain ⟨options, _, values, whole⟩ := run_of_bind others
  obtain ⟨rfl, -⟩ := run_of_pure whole
  obtain ⟨rfl, -⟩ := run_of_pure made
  have inside := (List.getElem?_eq_some_iff.mp option).1
  have length : n ≤ options.length := by
    rw [length_of_bindOptions values, withoutOption, List.length_eraseIdx_of_lt inside]
    omega
  exact List.getElem?_insertIdx_self.trans (if_pos length)

end

end Plan

/-! ### Explaining -/

section

variable {registry : Registry σ} {catalog : Catalog} {request : ExplainRequest} {call : Call}
  {requestId : String} {n : Nat} {k v : String} {j : Json}

/-- The plan of a request with the table it is for. -/
def ExplainRequest.plan (registry : Registry σ) (catalog : Catalog) (request : ExplainRequest) :
    Except ExplainError (Schema × Plan σ) :=
  match Call.read request.call with
  | .error e => .error (.syntactic e)
  | .ok call =>
    match catalog.table request.table with
    | .error e => .error (.schema e)
    | .ok schema =>
      match Plan.ofCall registry call with
      | .error e => .error (.plan e)
      | .ok plan => .ok (schema, plan)

/-- What is answered when a plan is bound. -/
def answer (requestId : String) (bound : Except PlanError (Pipeline σ)) :
    Except ExplainError ExplainResponse :=
  (bound.mapError .plan).map fun p => ⟨requestId, p.summary.fingerprint, p.summary⟩

/-- A call is planned without a look at the variables or the state, and then bound. -/
theorem explain_eq : explain registry catalog request requestId
    = match request.plan registry catalog with
      | .error e => pure (.error e)
      | .ok (schema, plan) => answer requestId <$> (plan.bind schema request.env).run := by
  unfold explain ExplainRequest.plan
  cases Call.read request.call with
  | error e => rfl
  | ok call =>
      dsimp only
      cases catalog.table request.table with
      | error e => rfl
      | ok schema =>
          dsimp only
          cases Plan.ofCall registry call with
          | error e => rfl
          | ok plan =>
              dsimp only
              rw [map_eq_pure_bind]
              refine bind_congr fun bound => ?_
              cases bound <;> rfl

/-- Planning does not look at options. -/
theorem ExplainRequest.plan_withoutOption {without : ExplainRequest}
    (read : Call.read request.call = .ok call) (table : without.table = request.table)
    (others : Call.read without.call = .ok (call.withoutOption n)) :
    without.plan registry catalog
      = (request.plan registry catalog).map fun p => (p.1, p.2.withoutOption n) := by
  unfold ExplainRequest.plan
  rw [read, others, table]
  dsimp only
  cases catalog.table request.table with
  | error e => rfl
  | ok schema =>
      dsimp only
      rw [Plan.ofCall_withoutOption]
      cases Plan.ofCall registry call <;> rfl

theorem ExplainRequest.options_of_plan {schema : Schema} {plan : Plan σ}
    (read : Call.read request.call = .ok call)
    (planned : request.plan registry catalog = .ok (schema, plan)) :
    plan.options = call.arguments.options := by
  unfold ExplainRequest.plan at planned
  rw [read] at planned
  dsimp only at planned
  cases table : catalog.table request.table with
  | error e =>
      rw [table] at planned
      cases planned
  | ok schema =>
      rw [table] at planned
      dsimp only at planned
      cases made : Plan.ofCall registry call with
      | error e =>
          rw [made] at planned
          cases planned
      | ok plan =>
          rw [made] at planned
          cases planned
          obtain ⟨_, _, _, _, _, _, options⟩ := Plan.ofCall_ok made
          exact options

/-- The variable of a document in the scope of a request. -/
theorem ExplainRequest.captured (supplied : (Json.object request.scope).member? v = some j) :
    request.env.get? v = some (Value.ofJson j) := by
  rw [request.get?_env, supplied]
  rfl

/-- An option of the answer is the document of the variable that it names. -/
theorem option_of_answer (valid : j.Valid) : (Value.ofJson j).toJson.canonical
    = j.rounded.canonical := by
  rw [Value.toJson_ofJson valid, Json.canonical_canonical]

/-- Explaining a call is explaining it without an option that names a variable of the request. -/
theorem explain_insertOption {without : ExplainRequest} (read : Call.read request.call = .ok call)
    (option : call.arguments.options[n]? = some (k, .ident v))
    (supplied : (Json.object request.scope).member? v = some j) (valid : j.Valid)
    (table : without.table = request.table) (scope : without.scope = request.scope)
    (others : Call.read without.call = .ok (call.withoutOption n)) :
    explain registry catalog request requestId
      = Except.map (·.insertOption n (k, j.rounded.canonical))
        <$> explain registry catalog without requestId := by
  have env : without.env = request.env := by
    rw [ExplainRequest.env, scope, ExplainRequest.env]
  have inserted (p : Except PlanError (Pipeline σ)) :
      answer requestId (p.map (·.insertOption n (k, Value.ofJson j)))
        = (answer requestId p).map (·.insertOption n (k, j.rounded.canonical)) := by
    cases p with
    | error e => rfl
    | ok p =>
        simp only [answer, Except.map, Except.mapError, Pipeline.summary_insertOption,
          option_of_answer valid, ExplainResponse.insertOption]
  rw [explain_eq, explain_eq, ExplainRequest.plan_withoutOption read table others, env]
  cases planned : request.plan registry catalog with
  | error e => rfl
  | ok p =>
      obtain ⟨schema, plan⟩ := p
      have named : plan.options[n]? = some (k, .ident v) := by
        rw [ExplainRequest.options_of_plan read planned, option]
      dsimp only [Except.map]
      rw [Plan.bind_insertOption named (ExplainRequest.captured supplied), ExceptT.run_map,
        Functor.map_map, Functor.map_map]
      exact map_congr inserted

/-- The summary in an answer has the document of a variable where an option names it. -/
theorem option_of_explain {response : ExplainResponse} {s s' : σ}
    (read : Call.read request.call = .ok call)
    (option : call.arguments.options[n]? = some (k, .ident v))
    (supplied : (Json.object request.scope).member? v = some j) (valid : j.Valid)
    (explained : (explain registry catalog request requestId).run s = (.ok response, s')) :
    response.plan.options[n]? = some (k, j.rounded.canonical) := by
  rw [explain_eq] at explained
  cases planned : request.plan registry catalog with
  | error e =>
      rw [planned] at explained
      cases explained
  | ok p =>
      obtain ⟨schema, plan⟩ := p
      rw [planned] at explained
      have named : plan.options[n]? = some (k, .ident v) := by
        rw [ExplainRequest.options_of_plan read planned, option]
      have ran : (answer requestId ((plan.bind schema request.env).run s).1,
          ((plan.bind schema request.env).run s).2) = (.ok response, s') := explained
      rcases bound : (plan.bind schema request.env).run s with ⟨_ | pipeline, s₁⟩
      · rw [bound] at ran
        cases ran
      · rw [bound] at ran
        cases ran
        have found := Plan.option_of_bind named (ExplainRequest.captured supplied) bound
        simp only [Pipeline.summary, List.getElem?_map, found, Option.map_some,
          option_of_answer valid]

/-- An option that names a variable of the request has the document of that variable in the answer,
in canonical form, and makes no other difference. The document is the one that the caller sent, but
for integers above the largest one of 64 bits with a sign, which become the nearest double. -/
theorem variables_pass_through (registry : Registry σ) (catalog : Catalog) (requestId : String)
    (read : Call.read request.call = .ok call)
    (option : call.arguments.options[n]? = some (k, .ident v))
    (supplied : (Json.object request.scope).member? v = some j) (valid : j.Valid) :
    (∀ s response s', (explain registry catalog request requestId).run s = (.ok response, s') →
      response.plan.options[n]? = some (k, j.rounded.canonical))
    ∧ (∀ without : ExplainRequest, without.table = request.table → without.scope = request.scope →
      Call.read without.call = .ok (call.withoutOption n) →
      explain registry catalog request requestId
        = Except.map (·.insertOption n (k, j.rounded.canonical))
          <$> explain registry catalog without requestId)
    ∧ (Value.ofJson j).toJson = j.rounded.canonical
    ∧ (j.Numbers (· ≤ Int64.maxValue.toInt) (·.isFinite) → j.rounded = j)
    ∧ ∀ i, Json.IsWide i → Int64.maxValue.toInt < i →
      ∃ x, (Json.int i).rounded = .float x ∧ Decimal.Nearest x i :=
  ⟨fun _ _ _ explained => option_of_explain read option supplied valid explained,
    fun _ table scope others => explain_insertOption read option supplied valid table scope others,
    Value.toJson_ofJson valid, Json.rounded_of_small, fun _ => Json.nearest_of_large⟩

end

/-- A call whose only option is a variable of the request. -/
def optionRequest (j : Json) : ExplainRequest :=
  ⟨"t", "@select(:a; k = v)", [("v", j)]⟩

theorem read_optionRequest (j : Json) : Call.read (optionRequest j).call
    = .ok ⟨"select", [.column (.name "a")], [("k", .ident "v")]⟩ := by
  change Call.read "@select(:a; k = v)" = _
  cbv

theorem supplied_optionRequest (j : Json) :
    (Json.object (optionRequest j).scope).member? "v" = some j :=
  rfl

theorem optionRequest_explained (j : Json) : ∃ response,
    (explain (Registry.empty "1") (Catalog.ofTables [⟨"t", [⟨"a", .int, true⟩]⟩]) (optionRequest j)
      "1").run () = (.ok response, ()) := by
  unfold explain
  rw [read_optionRequest]
  exact ⟨_, rfl⟩

/-- A nested document comes back with the names in order. -/
theorem nested_document_passes_through :
    let j : Json := .object [("b", .array [.int 1, .null]), ("a", .string "x")]
    j.Valid ∧ ∃ response,
      (explain (Registry.empty "1") (Catalog.ofTables [⟨"t", [⟨"a", .int, true⟩]⟩]) (optionRequest j)
        "1").run () = (.ok response, ())
      ∧ response.plan.options[0]?
        = some ("k", .object [("a", .string "x"), ("b", .array [.int 1, .null])]) := by
  intro j
  have small : j.Numbers (fun i => Json.IsWide i ∧ i ≤ Int64.maxValue.toInt) (·.isFinite) := by
    refine .object ?_
    rw [List.forall_mem_cons, List.forall_mem_singleton]
    refine ⟨.array ?_, .string _⟩
    rw [List.forall_mem_cons, List.forall_mem_singleton]
    exact ⟨.int (by decide), .null⟩
  have valid : j.Valid := small.mono (fun _ h => h.1) (fun _ h => h)
  obtain ⟨response, explained⟩ := optionRequest_explained j
  have option : [("k", Expr.ident "v")][0]? = some ("k", .ident "v") := rfl
  obtain ⟨passes, -, -, same, -⟩ :=
    variables_pass_through _ _ _ (read_optionRequest j) option (supplied_optionRequest j) valid
  refine ⟨valid, response, explained, ?_⟩
  rw [passes () response () explained, same (small.mono (fun _ h => h.2) (fun _ h => h))]
  rfl

/-- An integer that needs all of 64 bits without a sign does not come back. -/
theorem large_integer_changes :
    let j : Json := .int 18446744073709551615
    j.Valid ∧ ∃ response,
      (explain (Registry.empty "1") (Catalog.ofTables [⟨"t", [⟨"a", .int, true⟩]⟩]) (optionRequest j)
        "1").run () = (.ok response, ())
      ∧ response.plan.options[0]? ≠ some ("k", j)
      ∧ ∃ x, response.plan.options[0]? = some ("k", .float x)
        ∧ Decimal.Binary.ofFloat? x = some ⟨false, 2 ^ 52, 12⟩ := by
  intro j
  have valid : j.Valid := .int (by decide)
  obtain ⟨response, explained⟩ := optionRequest_explained j
  have option : [("k", Expr.ident "v")][0]? = some ("k", .ident "v") := rfl
  have found := option_of_explain (read_optionRequest j) option (supplied_optionRequest j) valid
    explained
  have rounded : j.rounded.canonical = .float (UInt64.ofNat 18446744073709551615).toFloat := rfl
  rw [rounded] at found
  refine ⟨valid, response, explained, by simp [found, j], _, found, ?_⟩
  rw [Decimal.ofFloat_word (by decide) (by decide)]
  rfl

end TablePlan
