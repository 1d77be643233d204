import TablePlan.Builtin.Standard
import TablePlan.Service.Explain
import TablePlan.Service.MediaType

/-!
# The routes of the service

Three paths: the state of the service, the tables of the catalog, and explaining a call. Every
path has one method, and a path that is read answers a request for its head without a body.
-/

namespace TablePlan

/-- What a service works with. -/
structure Service (σ : Type) where
  registry : Registry σ
  catalog : Catalog

/-- A request; a query or a fragment may follow its path. -/
structure Request where
  method : String
  path : String
  contentType : Option String
  body : String

/-- A status with a document, if there is one. -/
structure Response where
  status : Nat
  body : Option Json

namespace Service

variable {σ : Type}

/-- The version of the service. -/
def version : String := "0.1.0"

/-- The state of the service. -/
def health (s : Service σ) : Json :=
  .object [("status", .string "ok"), ("version", .string version),
    ("registry_version", .string s.registry.version), ("tables", .int s.catalog.size),
    ("functions", .int s.registry.names.length)]

/-- Answer a request to explain a call, unless that breaks off. -/
def explainCall (s : Service σ) (requestId : String) (r : Request) :
    ExceptT Stop (StateM σ) Response := do
  if !(r.contentType.any MediaType.isJson) then return ⟨415, none⟩
  match ExplainRequest.ofText r.body with
  | .error .notADocument => return ⟨400, none⟩
  | .error .notARequest => return ⟨422, none⟩
  | .ok request =>
    match ← explain s.registry s.catalog request requestId with
    | .ok response => return ⟨200, some response.toJson⟩
    | .error e =>
      if let some cause := e.stop? then throw cause
      let body := Json.object [("request_id", .string requestId), ("error", .string e.message)]
      return ⟨400, some body⟩

/-- Answer a request for something that can only be read. -/
def readOnly (document : Json) (r : Request) : Response :=
  match r.method with
  | "GET" => ⟨200, some document⟩
  | "HEAD" => ⟨200, none⟩
  | _ => ⟨405, none⟩

/-- Answer a request, unless that breaks off. -/
def handle (s : Service σ) (requestId : String) (r : Request) : ExceptT Stop (StateM σ) Response :=
  match String.ofList (r.path.toList.takeWhile fun c => c != '?' && c != '#') with
  | "/health" => return readOnly s.health r
  | "/tables" => return readOnly s.catalog.listing r
  | "/explain" => if r.method == "POST" then s.explainCall requestId r else return ⟨405, none⟩
  | _ => return ⟨404, none⟩

end Service

end TablePlan
