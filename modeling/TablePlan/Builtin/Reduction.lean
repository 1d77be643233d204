import TablePlan.Registry.Argument

/-!
# Reductions of whole columns

A missing element makes the result missing; leave such elements out first to ignore them.
-/

namespace TablePlan.Builtin

open Value

/-- The sum of integers from left to right, as long as every partial sum is in range. -/
def sumInts (total : Int) : List Int64 → Except FunctionError Int64
  | [] => .ok (Int64.ofInt total)
  | i :: rest =>
    let next := total + i.toInt
    if Int64.minValue.toInt ≤ next ∧ next ≤ Int64.maxValue.toInt then sumInts next rest
    else .error (.domain "integer overflow in sum")

/-- The integers of a list that holds nothing else. -/
def allInts? : List Value → Option (List Int64)
  | [] => some []
  | int i :: rest => (allInts? rest).map (i :: ·)
  | _ => none

/-- The numbers of a list that holds nothing else. -/
def numbers (items : List Value) : Except FunctionError (List Float) :=
  items.mapM expectNumber

/-- The numbers of a list that has at least one. -/
def someNumbers (name : String) (items : List Value) : Except FunctionError (List Float) := do
  let xs ← numbers items
  if xs.isEmpty then throw (.domain (name ++ " of empty collection"))
  return xs

/-- The sum of floats from left to right. -/
def sumFloats (xs : List Float) : Float :=
  xs.foldl (· + ·) 0.0

/-- The average of floats. -/
def meanFloats (xs : List Float) : Float :=
  sumFloats xs / Float.ofNat xs.length

/-- The sum: an integer if all elements are. -/
def total (items : List Value) : Except FunctionError Value :=
  match allInts? items with
  | some ints => return int (← sumInts 0 ints)
  | none => return float (sumFloats (← numbers items))

/-- The middle one of floats in order, or the average of the two in the middle. -/
def medianFloats (xs : List Float) : Float :=
  let sorted := xs.mergeSort fun a b => !(b < a)
  let middle := xs.length / 2
  let upper := sorted.getD middle 0.0
  if xs.length % 2 = 0 then (sorted.getD (middle - 1) 0.0 + upper) / 2.0 else upper

/-- Whether floats are in no consistent order: one that is no number compares with none, and so lies
between any two that are apart. -/
def disordered (xs : List Float) : Bool :=
  xs.any Float.isNaN && xs.any fun a => xs.any fun b => a < b

/-- The median of floats that have an order. -/
def median (xs : List Float) : Except FunctionError Float :=
  if disordered xs then .error (.stopped (.order xs)) else .ok (medianFloats xs)

/-- The variance of a sample. -/
def variance (items : List Value) : Except FunctionError Float := do
  let xs ← numbers items
  if xs.length < 2 then throw (.domain "variance needs at least two values")
  let m := meanFloats xs
  return sumFloats (xs.map fun x => (x - m) * (x - m)) / Float.ofNat (xs.length - 1)

/-- The element that no later one precedes in the wanted direction, starting from `best`. -/
def extremeFrom (wanted : Ordering) (best : Value) : List Value → Except FunctionError Value
  | [] => .ok best
  | item :: rest =>
    match item.compare? best with
    | some order => extremeFrom wanted (if order == wanted then item else best) rest
    | none => .error (.mismatch best.typeName item)

/-- The least or the greatest element. -/
def extreme (wanted : Ordering) : List Value → Except FunctionError Value
  | [] => .error (.domain "reduction over empty collection")
  | first :: rest => extremeFrom wanted first rest

/-- How many truth values are true. -/
def countTrue : List Value → Except FunctionError Nat
  | [] => .ok 0
  | .bool b :: rest => return (if b then 1 else 0) + (← countTrue rest)
  | other :: _ => .error (.mismatch "bool" other)

/-- A reduction that is missing as soon as one element is. -/
def poisoned (name : String) (f : List Value → Except FunctionError Value) : PureFunction :=
  .reduction name fun items => if items.any isMissing then .ok missing else f items

/-- The reductions. -/
def reductions : List PureFunction := [
  poisoned "sum" total,
  poisoned "mean" fun items => return float (meanFloats (← someNumbers "mean" items)),
  poisoned "median" fun items => return float (← median (← someNumbers "median" items)),
  poisoned "minimum" (extreme .lt),
  poisoned "maximum" (extreme .gt),
  poisoned "var" fun items => return float (← variance items),
  poisoned "std" fun items => return float (← variance items).sqrt,
  .reduction "count" fun items => return int (Int64.ofNat (← countTrue items))]

end TablePlan.Builtin
