import TablePlan.Json.Skipping
import TablePlan.Plan.Pipeline
import TablePlan.Service.Catalog

/-!
# Explaining calls

A call is read, planned and bound to a table of the catalog and to the variables of the request.
The answer is the summary of what would be done; nothing is done.

The text of a request is read from left to right, and the first thing wrong with it decides
whether it is no document at all or a document of the wrong form.
-/

namespace TablePlan

/-- A call to explain, with the variables of its caller. -/
structure ExplainRequest where
  table : String
  call : String
  scope : List (String × Json)

/-- Why a call cannot be explained. -/
inductive ExplainError where
  | syntactic (cause : SyntaxError)
  | schema (cause : TableNotFound)
  | plan (cause : PlanError)

namespace ExplainError

/-- The wording of the error. -/
def message : ExplainError → String
  | syntactic cause => "Parse error: " ++ cause.message
  | schema cause => cause.message
  | plan cause => "Rewrite error: " ++ cause.message

/-- What the explanation broke off for, if it did. -/
def stop? : ExplainError → Option Stop
  | plan cause => cause.stop?
  | _ => none

end ExplainError

/-- A summary with its fingerprint. -/
structure ExplainResponse where
  requestId : String
  fingerprint : String
  plan : Summary

namespace ExplainResponse

/-- The document of an answer. -/
def toJson (r : ExplainResponse) : Json :=
  .object [("request_id", .string r.requestId), ("fingerprint", .string r.fingerprint),
    ("plan", r.plan.toJson)]

end ExplainResponse

/-- Why the text of a request is refused. -/
inductive RequestError where
  /-- The text is no document. -/
  | notADocument
  /-- The document is no request. -/
  | notARequest
deriving DecidableEq

namespace ExplainRequest

open Json (skipSpace)

/-- The variables of the caller. -/
def env (r : ExplainRequest) : Scope :=
  ⟨(Json.sortMembers r.scope).map fun m => (m.1, Value.ofJson m.2)⟩

/-- Something other than what a request has at this place. -/
def unexpected {α : Type} (cs : List Char) : Except RequestError α :=
  match cs with
  | '[' :: _ | '\x7b' :: _ => .error .notARequest
  | '"' :: rest => .error (if (Json.string? rest).isSome then .notARequest else .notADocument)
  | cs => .error (if (Json.value? 1 cs).isSome then .notARequest else .notADocument)

/-- What a reader of documents reads. -/
def document {α : Type} (read : List Char → Option (α × List Char)) (cs : List Char) :
    Except RequestError (α × List Char) :=
  match read cs with
  | some found => .ok found
  | none => .error .notADocument

/-- A string. -/
def text (cs : List Char) : Except RequestError (String × List Char) :=
  match skipSpace cs with
  | '"' :: rest => document Json.string? rest
  | cs => unexpected cs

/-- The variables of the caller. -/
def readScope (cs : List Char) : Except RequestError (List (String × Json) × List Char) :=
  match skipSpace cs with
  | '\x7b' :: rest =>
    document (Json.items? '\x7d' (Json.member (Json.value? (Json.depthLimit - 2)))) rest
  | cs => unexpected cs

/-- The parts of a request found so far. -/
structure Parts where
  table : Option String
  call : Option String
  scope : Option (List (String × Json))

namespace Parts

/-- The request, if no part is lacking that has to be there. -/
def request (p : Parts) : Except RequestError ExplainRequest :=
  match p.table, p.call with
  | some table, some call => .ok ⟨table, call, p.scope.getD []⟩
  | _, _ => .error .notARequest

/-- Read the value of a member. No part comes twice, and other members do not count. -/
def member (p : Parts) (name : String) (cs : List Char) : Except RequestError (Parts × List Char) :=
  let colon : Except RequestError (List Char) :=
    match skipSpace cs with
    | ':' :: rest => .ok rest
    | _ => .error .notADocument
  match name with
  | "table" => do
    if p.table.isSome then throw .notARequest
    let (s, rest) ← text (← colon)
    return ({ p with table := some s }, rest)
  | "call" => do
    if p.call.isSome then throw .notARequest
    let (s, rest) ← text (← colon)
    return ({ p with call := some s }, rest)
  | "scope" => do
    if p.scope.isSome then throw .notARequest
    let (vars, rest) ← readScope (← colon)
    return ({ p with scope := some vars }, rest)
  | _ => do
    let (_, rest) ← document Json.skip? (skipSpace (← colon))
    return (p, rest)

/-- Read members, of which there are at most `fuel`, up to the end of the object. -/
def members (p : Parts) (first : Bool) : Nat → List Char → Except RequestError ExplainRequest
  | 0, _ => .error .notADocument
  | fuel + 1, cs =>
    let named (cs : List Char) : Except RequestError ExplainRequest :=
      match cs with
      | '"' :: rest => do
        let (name, rest) ← document Json.string? rest
        let (p, rest) ← p.member name rest
        p.members false fuel rest
      | _ => .error .notADocument
    match skipSpace cs with
    | '\x7d' :: _ => p.request
    | ',' :: rest => if first then .error .notADocument else named (skipSpace rest)
    | cs => if first then named cs else .error .notADocument

end Parts

/-- Whether a list goes on with another item, and the characters from that item on. -/
def nextItem (first : Bool) (cs : List Char) : Except RequestError (Option (List Char)) :=
  match skipSpace cs with
  | ']' :: _ => .ok none
  | ',' :: rest =>
    if first then .ok (some (',' :: rest))
    else
      match skipSpace rest with
      | [] | ']' :: _ => .error .notADocument
      | cs => .ok (some cs)
  | [] => .error .notADocument
  | cs => if first then .ok (some cs) else .error .notADocument

/-- The parts of a request in order, as a list. -/
def listed (cs : List Char) : Except RequestError ExplainRequest := do
  let some cs ← nextItem true cs | throw .notARequest
  let (table, cs) ← text cs
  let some cs ← nextItem false cs | throw .notARequest
  let (call, cs) ← text cs
  match ← nextItem false cs with
  | none => return ⟨table, call, []⟩
  | some cs =>
    let (scope, cs) ← readScope cs
    match skipSpace cs with
    | ']' :: _ => return ⟨table, call, scope⟩
    | _ => throw .notADocument

/-- The request that a text begins with. -/
def ofText (s : String) : Except RequestError ExplainRequest :=
  match skipSpace s.toList with
  | '\x7b' :: rest => Parts.members ⟨none, none, none⟩ true (rest.length + 1) rest
  | '[' :: rest => listed rest
  | cs => unexpected cs

end ExplainRequest

/-- Explain a call. -/
def explain {σ : Type} (registry : Registry σ) (catalog : Catalog) (request : ExplainRequest)
    (requestId : String) : StateM σ (Except ExplainError ExplainResponse) := do
  match Call.read request.call with
  | .error e => return .error (.syntactic e)
  | .ok call =>
    match catalog.table request.table with
    | .error e => return .error (.schema e)
    | .ok schema =>
      match Plan.ofCall registry call with
      | .error e => return .error (.plan e)
      | .ok plan =>
        match ← (plan.bind schema request.env).run with
        | .error e => return .error (.plan e)
        | .ok pipeline =>
          let summary := pipeline.summary
          return .ok ⟨requestId, summary.fingerprint, summary⟩

end TablePlan
