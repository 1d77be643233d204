import TablePlan.Value.Basic

/-!
# The function registry

Functions are found by name and number of arguments. A name may have several overloads; the one
registered last wins among those that accept a number of arguments.

A function may keep a state between calls; the type of that state is a parameter of the registry.
Pure functions fit a registry with any state.
-/

namespace TablePlan

/-- Why a function gives no value. -/
inductive FunctionError where
  | typeMismatch (expected actual : String)
  | domain (reason : String)
  | spec (cause : SpecError)
  | argumentCount (actual : Nat)
  | stopped (cause : Stop)

namespace FunctionError

/-- The wording of the error. -/
def message : FunctionError → String
  | typeMismatch expected actual => "expected " ++ expected ++ ", got " ++ actual
  | domain reason => reason
  | spec cause => cause.message
  | argumentCount actual => "unexpected number of arguments: " ++ toString actual
  | stopped cause => cause.message

/-- What the function broke off for, if it did. -/
def stop? : FunctionError → Option Stop
  | stopped cause => some cause
  | spec cause => cause.stop?
  | _ => none

/-- A value of another type than expected. -/
def mismatch (expected : String) (actual : Value) : FunctionError :=
  typeMismatch expected actual.typeName

end FunctionError

/-- Why a call by name gives no value. -/
inductive RegistryError where
  | functionNotFound (func : String)
  | arityMismatch (func expected : String) (actual : Nat)
  | function (func : String) (cause : FunctionError)

namespace RegistryError

/-- The wording of the error. -/
def message : RegistryError → String
  | functionNotFound func => "Function not found: " ++ func
  | arityMismatch func expected actual =>
    "No method " ++ func ++ " accepting " ++ toString actual ++ " argument(s); expected "
      ++ expected
  | function func cause => func ++ ": " ++ cause.message

/-- What the call broke off for, if it did. -/
def stop? : RegistryError → Option Stop
  | function _ cause => cause.stop?
  | _ => none

end RegistryError

/-- The numbers of arguments that a function accepts. -/
inductive Arity where
  | exact (n : Nat)
  | range (least most : Nat)
  | atLeast (least : Nat)
deriving DecidableEq

namespace Arity

/-- Whether a number of arguments is accepted. -/
def accepts : Arity → Nat → Bool
  | exact n, count => count == n
  | range least most, count => decide (least ≤ count) && decide (count ≤ most)
  | atLeast least, count => decide (least ≤ count)

/-- The accepted numbers in words. -/
def text : Arity → String
  | exact n => toString n
  | range least most => toString least ++ "..=" ++ toString most
  | atLeast least => toString least ++ " or more"

end Arity

/-- What is known of a function without calling it. -/
structure Signature where
  name : String
  arity : Arity
  isAggregate : Bool := false
  isSelector : Bool := false

namespace Signature

/-- A function of scalars. -/
def scalar (name : String) (arity : Arity) : Signature := ⟨name, arity, false, false⟩

/-- A reduction of one collection. -/
def aggregate (name : String) : Signature := ⟨name, .exact 1, true, false⟩

/-- A function that returns a column specifier. -/
def selector (name : String) (arity : Arity) : Signature := ⟨name, arity, false, true⟩

end Signature

/-- One definition of a function, with a state of type `σ`. -/
structure Overload (σ : Type) where
  signature : Signature
  run : List Value → StateM σ (Except FunctionError Value)

/-- A function without a state of its own. -/
structure PureFunction where
  signature : Signature
  run : List Value → Except FunctionError Value

/-- A pure function among functions with a state. -/
def PureFunction.toOverload {σ : Type} (f : PureFunction) : Overload σ :=
  ⟨f.signature, fun args => pure (f.run args)⟩

/-- Functions by name, the newest definition first. -/
structure Registry (σ : Type) where
  version : String
  overloads : List (Overload σ)

namespace Registry

variable {σ : Type}

/-- A registry without functions. -/
def empty (version : String) : Registry σ := ⟨version, []⟩

/-- Add a definition, which wins over earlier ones of its name. -/
def register (r : Registry σ) (o : Overload σ) : Registry σ :=
  { r with overloads := o :: r.overloads }

/-- The definitions of a name, the newest first. -/
def overloadsOf (r : Registry σ) (name : String) : List (Overload σ) :=
  r.overloads.filter fun o => o.signature.name == name

/-- Whether a name has a definition. -/
def contains (r : Registry σ) (name : String) : Bool :=
  !(r.overloadsOf name).isEmpty

/-- The newest definition of a name that accepts a number of arguments. -/
def lookup (r : Registry σ) (name : String) (count : Nat) : Except RegistryError (Overload σ) :=
  match r.overloadsOf name with
  | [] => .error (.functionNotFound name)
  | candidates =>
    match candidates.find? fun o => o.signature.arity.accepts count with
    | some o => .ok o
    | none =>
      let arities := candidates.map fun o => o.signature.arity.text
      .error (.arityMismatch name (Text.joinWith " | " arities) count)

/-- Call a function by name. -/
def call (r : Registry σ) (name : String) (args : List Value) :
    StateM σ (Except RegistryError Value) := do
  match r.lookup name args.length with
  | .error e => return .error e
  | .ok o =>
    match ← o.run args with
    | .ok value => return .ok value
    | .error cause => return .error (.function name cause)

/-- Every name once, in order. -/
def names (r : Registry σ) : List String :=
  (r.overloads.map fun o => o.signature.name).eraseDups.mergeSort fun a b => decide (a ≤ b)

/-- A registry in one line: its version and the number of names. -/
def inspect (r : Registry σ) : String :=
  "FunctionRegistry \x7b version: " ++ Text.quote r.version ++ ", functions: "
    ++ toString r.names.length ++ " \x7d"

end Registry

end TablePlan
