import TablePlan.Proofs.Decimal.Words
import TablePlan.Proofs.Json.Canonical
import TablePlan.Value.Exchange

/-!
# Documents as values and back

A value has no integers above the largest one of 64 bits with a sign, and so an integer above that
becomes the nearest double. All else in a document comes back when its value is made a document
again.
-/

namespace TablePlan

namespace Json

/-- An integer that a document can show: with a sign or without one it has 64 bits. -/
def IsWide (i : Int) : Prop :=
  Int64.minValue.toInt ≤ i ∧ i < 2 ^ 64

instance : DecidablePred IsWide :=
  fun i => inferInstanceAs (Decidable (Int64.minValue.toInt ≤ i ∧ i < 2 ^ 64))

/-- A document that was read from a text. -/
def Valid (j : Json) : Prop :=
  j.Numbers IsWide (·.isFinite)

mutual

/-- The document with doubles for the integers that are too large. -/
def rounded : Json → Json
  | int i => if i ≤ Int64.maxValue.toInt then int i else float (UInt64.ofNat i.toNat).toFloat
  | array items => array (roundedItems items)
  | object members => object (roundedMembers members)
  | other => other

/-- The items of an array with doubles for the integers that are too large. -/
def roundedItems : List Json → List Json
  | [] => []
  | item :: rest => item.rounded :: roundedItems rest

/-- The members of an object with doubles for the integers that are too large. -/
def roundedMembers : List (String × Json) → List (String × Json)
  | [] => []
  | (name, value) :: rest => (name, value.rounded) :: roundedMembers rest

end

theorem rounded_array (items : List Json) : (array items).rounded = array (items.map rounded) := by
  have each : roundedItems items = items.map rounded := by
    induction items with
    | nil => rfl
    | cons item rest ih => rw [roundedItems, ih, List.map_cons]
  rw [rounded, each]

theorem rounded_object (members : List (String × Json)) :
    (object members).rounded = object (members.map fun m => (m.1, m.2.rounded)) := by
  have each : roundedMembers members = members.map fun m => (m.1, m.2.rounded) := by
    induction members with
    | nil => rfl
    | cons m rest ih => rw [roundedMembers, ih, List.map_cons]
  rw [rounded, each]

/-- A document without integers that are too large stays as it is. -/
theorem rounded_of_small {float : Float → Prop} {j : Json}
    (h : j.Numbers (· ≤ Int64.maxValue.toInt) float) : j.rounded = j := by
  induction h with
  | int small => rw [rounded, if_pos small]
  | array _ ih =>
      rw [rounded_array, List.map_congr_left ih, List.map_id']
  | object _ ih =>
      rw [rounded_object]
      refine congrArg object ((List.map_congr_left fun m own => ?_).trans (List.map_id' _))
      exact Prod.ext rfl (ih m own)
  | _ => rfl

/-- An integer that is too large becomes the nearest double. -/
theorem nearest_of_large {i : Int} (wide : IsWide i) (large : Int64.maxValue.toInt < i) :
    ∃ x, (int i).rounded = float x ∧ Decimal.Nearest x i := by
  obtain ⟨n, rfl⟩ := Int.eq_ofNat_of_zero_le (le_trans (by decide) large.le)
  have low : 2 ^ 63 ≤ n := by
    have greatest : Int64.maxValue.toInt = 2 ^ 63 - 1 := rfl
    omega
  have high : n < 2 ^ 64 := by
    have below := wide.2
    omega
  refine ⟨(UInt64.ofNat n).toFloat, ?_, Decimal.ofWord n, Decimal.ofFloat_word low high,
    (Decimal.ofWord_bounds low high).1, ?_⟩
  · rw [rounded, if_neg (by omega), Int.toNat_natCast]
  · exact_mod_cast Decimal.rounds_word low high

theorem rounded_canonical (j : Json) : j.canonical.rounded = j.rounded.canonical := by
  induction j using inside_out with
  | int i =>
      change (int i).rounded = (int i).rounded.canonical
      rw [rounded]
      split <;> rfl
  | array items ih =>
      rw [canonical_array, rounded_array, rounded_array, canonical_array, List.map_map,
        List.map_map]
      exact congrArg array (List.map_congr_left ih)
  | object members ih =>
      rw [canonical_object, rounded_object, rounded_object, canonical_object, sortMembers_map,
        List.map_map, List.map_map]
      refine congrArg object (List.map_congr_left fun m own => ?_)
      exact Prod.ext rfl (ih m (mem_sortMembers members own))
  | _ => rfl

end Json

namespace Value

theorem ofCanonical_array (items : List Json) :
    ofCanonical (.array items) = list (items.map ofCanonical) := by
  have each : ofCanonicalItems items = items.map ofCanonical := by
    induction items with
    | nil => rfl
    | cons item rest ih => rw [ofCanonicalItems, ih, List.map_cons]
  rw [ofCanonical, each]

theorem ofCanonical_object (members : List (String × Json)) :
    ofCanonical (.object members) = record (members.map fun m => (m.1, ofCanonical m.2)) := by
  have each : ofCanonicalMembers members = members.map fun m => (m.1, ofCanonical m.2) := by
    induction members with
    | nil => rfl
    | cons m rest ih => rw [ofCanonicalMembers, ih, List.map_cons]
  rw [ofCanonical, each]

theorem toJson_list (items : List Value) : (list items).toJson = .array (items.map toJson) := by
  have each : itemsToJson items = items.map toJson := by
    induction items with
    | nil => rfl
    | cons item rest ih => rw [itemsToJson, ih, List.map_cons]
  rw [toJson, each]

theorem toJson_record (fields : List (String × Value)) :
    (record fields).toJson = .object (fields.map fun f => (f.1, f.2.toJson)) := by
  have each : fieldsToJson fields = fields.map fun f => (f.1, f.2.toJson) := by
    induction fields with
    | nil => rfl
    | cons f rest ih => rw [fieldsToJson, ih, List.map_cons]
  rw [toJson, each]

theorem toJson_ofInteger {i : Int} (wide : Json.IsWide i) :
    (ofInteger i).toJson = (Json.int i).rounded := by
  obtain ⟨low, high⟩ := wide
  have least : Int64.minValue.toInt = -2 ^ 63 := rfl
  have greatest : Int64.maxValue.toInt = 2 ^ 63 - 1 := rfl
  rw [ofInteger, Json.rounded]
  split
  · rename_i fits
    rw [if_pos fits.2, toJson, Int64.toInt_ofInt_of_le (least ▸ low) (by omega)]
  · have large : ¬ i ≤ Int64.maxValue.toInt := by omega
    have finite : (UInt64.ofNat i.toNat).toFloat.isFinite :=
      Decimal.isFinite_iff.mpr ⟨_, Decimal.ofFloat_word (by omega) (by omega)⟩
    rw [if_neg large, toJson, if_pos finite]

/-- A document comes back from the value made of it. -/
theorem toJson_ofCanonical {j : Json} (h : j.Valid) : (ofCanonical j).toJson = j.rounded := by
  induction h with
  | int wide => exact toJson_ofInteger wide
  | float finite => exact if_pos finite
  | array _ ih =>
      rw [ofCanonical_array, toJson_list, Json.rounded_array, List.map_map]
      exact congrArg Json.array (List.map_congr_left ih)
  | object _ ih =>
      rw [ofCanonical_object, toJson_record, Json.rounded_object, List.map_map]
      refine congrArg Json.object (List.map_congr_left fun m own => ?_)
      exact Prod.ext rfl (ih m own)
  | _ => rfl

/-- A document comes back in canonical form. -/
theorem toJson_ofJson {j : Json} (h : j.Valid) : (ofJson j).toJson = j.rounded.canonical := by
  rw [ofJson, toJson_ofCanonical h.canonical, Json.rounded_canonical]

end Value

end TablePlan
