import TablePlan.Shape

/-!
# Stops

A computation that leaves the range of the machine breaks off. It comes neither to a result nor to
an error of its own, and whatever it was part of breaks off with it.
-/

namespace TablePlan

/-- Why a computation breaks off. -/
inductive Stop where
  /-- The elements of a shape are too many to count. -/
  | sizes (shape : Shape)
  /-- A text of so many bytes, repeated so often, is longer than a text can be. -/
  | length (bytes times : Nat)
  /-- The absolute value of an integer is none. -/
  | magnitude (i : Int64)
  /-- Floats of which some are no numbers have no consistent order. -/
  | order (xs : List Float)

namespace Stop

/-- The greatest number of bytes in a text. -/
def maxBytes : Nat := Int64.maxValue.toInt.toNat

/-- The limit in words. -/
def message : Stop → String
  | sizes shape => "too many elements in shape " ++ Shape.text shape
  | length bytes times => "text of " ++ toString bytes ++ " bytes repeated " ++ toString times
      ++ " times is too long"
  | magnitude i => "no absolute value of " ++ toString i
  | order xs => "no order of " ++ toString xs.length ++ " floats"

end Stop

end TablePlan
