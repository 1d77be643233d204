import TablePlan.Eval.Error

/-!
# Elements of values

Indices written in an expression count from one. Texts are indexed by characters, records by field
names, grids by one position or by one index for every dimension. Broadcasting takes the element
that every argument has at an index of the common shape.
-/

namespace TablePlan.Eval

open Value

/-- The position counted from zero that an index means among `length` elements. -/
def position (index : Value) (length : Nat) : Except EvalError Nat :=
  match index with
  | int i =>
    if 1 ≤ i.toInt ∧ i.toInt ≤ length then .ok (i.toInt.toNat - 1)
    else .error (.indexOutOfBounds i length)
  | other => .error (.mismatch "[]" [other])

/-- The element at an index among several. -/
def elementOf (items : List Value) (index : Value) : Except EvalError Value := do
  let i ← position index items.length
  match items[i]? with
  | some v => return v
  | none => throw .malformedGrid

/-- The positions that one index for every dimension means. -/
def positions : List Value → Shape → Except EvalError (List Nat)
  | index :: indices, size :: sizes =>
    return (← position index size) :: (← positions indices sizes)
  | _, _ => .ok []

/-- The part of a value at the given indices. -/
def index (base : Value) (indices : List Value) : Except EvalError Value :=
  let mismatch : EvalError := .mismatch "[]" (base :: indices)
  match base, indices with
  | record fields, [string name] =>
    match fields.lookup name with
    | some v => .ok v
    | none => .error (.unsupported ("record has no field `" ++ name ++ "`"))
  | string s, [i] => elementOf (s.toList.map fun c => string (String.ofList [c])) i
  | list items, [i] => elementOf items i
  | grid g, [i] => elementOf g.elements i
  | grid g, indices =>
    if indices.length = g.shape.length then do
      let place ← positions indices g.shape
      match g.get? place with
      | some v => return v
      | none => throw (.unsupported "grid index")
    else .error mismatch
  | _, _ => .error mismatch

/-- The element that an argument has at an index of the common shape. -/
def alignedElement? (arg : Value) (index : List Nat) : Option Value :=
  if arg.isCollection then arg.elements[Shape.operandPosition arg.shape index]? else some arg

/-- Apply a function to every combination of aligned elements, the first dimension fastest. -/
def broadcast {m : Type → Type} [Monad m] [MonadExceptOf EvalError m] (f : List Value → m Value)
    (args : List Value) : m Value :=
  let shapes := args.map Value.shape
  match Shape.common? shapes with
  | none => throw (.shapeMismatch shapes)
  | some [] => f args
  | some shape =>
    match Shape.enumerate? shape with
    | none => throw (.stopped (.sizes shape))
    | some indices => do
      let results ← indices.mapM fun index =>
        match args.mapM fun arg => alignedElement? arg index with
        | some elements => f elements
        | none => throw .malformedGrid
      return ofShape shape results

end TablePlan.Eval
