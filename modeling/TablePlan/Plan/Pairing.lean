import TablePlan.Argument.Error

/-!
# Pairing sources and sinks

Several selections are paired element by element by broadcasting their shapes. A sink of two or
more dimensions that is not shaped like the sources gives its names as a flat list.
-/

namespace TablePlan

/-- Selections paired element by element. -/
structure Pairing where
  shape : Shape
  /-- For every element, the name that each source gives. -/
  sources : List (List String)
  /-- For every element, the name of its sink, if there are sinks. -/
  sinks : Option (List String)

namespace Pairing

/-- The shape that all shapes stretch to. -/
def commonShape (shapes : List Shape) : Except ArgumentError Shape :=
  match Shape.common? shapes with
  | some shape => .ok shape
  | none => .error (.broadcastShapeMismatch shapes)

/-- The indices of the common shape in order. -/
def indicesOf (shape : Shape) : Except ArgumentError (List (List Nat)) :=
  match Shape.enumerate? shape with
  | some indices => .ok indices
  | none => .error (.stopped (.sizes shape))

/-- The name that a selection gives at an index of the common shape. -/
def nameAt (s : Selection) (index : List Nat) : Except ArgumentError String :=
  match s.names[Shape.operandPosition s.shape index]? with
  | some name => .ok name
  | none => .error .malformedSelection

/-- A sink as it is paired with sources of the given shape. -/
def flattened (sourceShape : Shape) (sink : Selection) : Selection :=
  if 2 ≤ sink.shape.length ∧ sink.shape ≠ sourceShape then .vector sink.names else sink

/-- Pair sources with an optional sink. -/
def ofSelections (sources : List Selection) (sink : Option Selection) :
    Except ArgumentError Pairing := do
  let sourceShape ← commonShape (sources.map Selection.shape)
  let sink := sink.map (flattened sourceShape)
  let shape ← match sink with
    | some s => commonShape [sourceShape, s.shape]
    | none => pure sourceShape
  let indices ← indicesOf shape
  let names ← indices.mapM fun index => sources.mapM fun s => nameAt s index
  let sinks ← sink.mapM fun s => indices.mapM (nameAt s)
  return ⟨shape, names, sinks⟩

end Pairing

end TablePlan
