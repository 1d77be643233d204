import TablePlan.Proofs.Json.Numbers

/-!
# Documents in canonical form

Sorting the members of an object puts them in the order of their names and does not change what a
name stands for, which is the last member of that name. It does not look at the values either. A
document in canonical form stays as it is.
-/

namespace TablePlan.Json

/-! ### Members in the order of their names -/

/-- Members in the order of their names, at most one of each name. -/
def Ordered (members : List (String × Json)) : Prop :=
  members.Pairwise fun m m' => m.1 < m'.1

section

variable {name : String} {value : Json} {members : List (String × Json)}

theorem mem_insertMember {m : String × Json} (h : m ∈ insertMember name value members) :
    m = (name, value) ∨ m ∈ members := by
  induction members with
  | nil => exact .inl (List.mem_singleton.mp h)
  | cons first rest ih =>
      obtain ⟨other, held⟩ := first
      rw [insertMember] at h
      split at h
      · exact (List.mem_cons.mp h).imp_right (List.mem_cons_of_mem _)
      · split at h
        · exact List.mem_cons.mp h
        · obtain rfl | later := List.mem_cons.mp h
          · exact .inr List.mem_cons_self
          · exact (ih later).imp_right (List.mem_cons_of_mem _)

theorem ordered_insertMember (h : Ordered members) : Ordered (insertMember name value members) := by
  induction members with
  | nil => exact List.pairwise_singleton _ _
  | cons first rest ih =>
      obtain ⟨other, held⟩ := first
      obtain ⟨before, ordered⟩ := List.pairwise_cons.mp h
      rw [insertMember]
      split
      · rename_i same
        subst same
        exact List.pairwise_cons.mpr ⟨before, ordered⟩
      · rename_i different
        split
        · rename_i less
          refine List.pairwise_cons.mpr ⟨fun m own => ?_, h⟩
          obtain rfl | later := List.mem_cons.mp own
          · exact less
          · exact String.lt_trans less (before m later)
        · rename_i notLess
          refine List.pairwise_cons.mpr ⟨fun m own => ?_, ih ordered⟩
          obtain rfl | later := mem_insertMember own
          · by_contra notGreater
            exact different (String.le_antisymm notGreater notLess)
          · exact before m later

/-- A member behind all others in the order is put at the end. -/
theorem insertMember_last (h : ∀ m ∈ members, m.1 < name) :
    insertMember name value members = members ++ [(name, value)] := by
  induction members with
  | nil => rfl
  | cons first rest ih =>
      obtain ⟨other, held⟩ := first
      rw [List.forall_mem_cons] at h
      have different : name ≠ other := by
        rintro rfl
        exact String.lt_irrefl _ h.1
      rw [insertMember, if_neg different, if_neg (String.lt_asymm h.1), ih h.2, List.cons_append]

theorem lookup_insertMember (v : String) :
    (insertMember name value members).lookup v = ((name, value) :: members).lookup v := by
  induction members with
  | nil => rfl
  | cons first rest ih =>
      obtain ⟨other, held⟩ := first
      rw [insertMember]
      split
      · rename_i same
        subst same
        rw [List.lookup_cons, List.lookup_cons, List.lookup_cons]
        cases v == name <;> rfl
      · rename_i different
        split
        · rfl
        · rw [List.lookup_cons, List.lookup_cons, List.lookup_cons, ih, List.lookup_cons]
          cases here : v == other
          · rfl
          · have apart : (v == name) = false := by
              rw [beq_iff_eq.mp here]
              exact beq_eq_false_iff_ne.mpr (Ne.symm different)
            rw [apart]

/-- Members are put at their place by their names alone. -/
theorem insertMember_map (f : Json → Json) :
    insertMember name (f value) (members.map fun m => (m.1, f m.2))
      = (insertMember name value members).map fun m => (m.1, f m.2) := by
  induction members with
  | nil => rfl
  | cons first rest ih =>
      rw [List.map_cons, insertMember, insertMember]
      split
      · rfl
      · split
        · rfl
        · rw [ih, List.map_cons]

end

section

variable (members : List (String × Json))

theorem sortMembers_concat (m : String × Json) :
    sortMembers (members ++ [m]) = insertMember m.1 m.2 (sortMembers members) := by
  rw [sortMembers, List.foldl_concat, sortMembers]

theorem ordered_sortMembers : Ordered (sortMembers members) := by
  induction members using List.reverseRecOn with
  | nil => exact .nil
  | append_singleton members m ih =>
      rw [sortMembers_concat]
      exact ordered_insertMember ih

theorem mem_sortMembers {m : String × Json} (h : m ∈ sortMembers members) : m ∈ members := by
  induction members using List.reverseRecOn with
  | nil => exact h
  | append_singleton members last ih =>
      rw [sortMembers_concat] at h
      obtain rfl | earlier := mem_insertMember h
      · simp
      · exact List.mem_append_left _ (ih earlier)

/-- A name stands for the last member of that name. -/
theorem lookup_sortMembers (v : String) :
    (sortMembers members).lookup v = (object members).member? v := by
  rw [member?]
  induction members using List.reverseRecOn with
  | nil => rfl
  | append_singleton members m ih =>
      rw [sortMembers_concat, lookup_insertMember, List.reverse_concat, List.lookup_cons,
        List.lookup_cons, ih]

theorem sortMembers_map (f : Json → Json) :
    sortMembers (members.map fun m => (m.1, f m.2))
      = (sortMembers members).map fun m => (m.1, f m.2) := by
  induction members using List.reverseRecOn with
  | nil => rfl
  | append_singleton members m ih =>
      rw [List.map_append, List.map_singleton, sortMembers_concat, sortMembers_concat, ih,
        insertMember_map]

end

theorem sortMembers_of_ordered {members : List (String × Json)} (h : Ordered members) :
    sortMembers members = members := by
  induction members using List.reverseRecOn with
  | nil => rfl
  | append_singleton members m ih =>
      obtain ⟨ordered, -, before⟩ := List.pairwise_append.mp h
      rw [sortMembers_concat, ih ordered]
      exact insertMember_last fun m' own => before m' own m (List.mem_singleton_self m)

/-! ### Documents -/

theorem canonicalItems_eq (items : List Json) : canonicalItems items = items.map canonical := by
  induction items with
  | nil => rfl
  | cons item rest ih => rw [canonicalItems, ih, List.map_cons]

theorem canonicalMembers_eq (members : List (String × Json)) :
    canonicalMembers members = members.map fun m => (m.1, m.2.canonical) := by
  induction members with
  | nil => rfl
  | cons m rest ih => rw [canonicalMembers, ih, List.map_cons]

theorem canonical_array (items : List Json) :
    (array items).canonical = array (items.map canonical) := by
  rw [canonical, canonicalItems_eq]

theorem canonical_object (members : List (String × Json)) : (object members).canonical
    = object ((sortMembers members).map fun m => (m.1, m.2.canonical)) := by
  rw [canonical, canonicalMembers_eq, sortMembers_map]

/-- The canonical form of a document is in canonical form. -/
theorem canonical_canonical (j : Json) : j.canonical.canonical = j.canonical := by
  induction j using inside_out with
  | array items ih =>
      rw [canonical_array, canonical_array, List.map_map]
      exact congrArg array (List.map_congr_left ih)
  | object members ih =>
      rw [canonical_object, canonical_object, sortMembers_map,
        sortMembers_of_ordered (ordered_sortMembers members), List.map_map]
      refine congrArg object (List.map_congr_left fun m own => ?_)
      exact Prod.ext rfl (ih m (mem_sortMembers members own))
  | _ => rfl

theorem Numbers.canonical {integer : Int → Prop} {float : Float → Prop} {j : Json}
    (h : j.Numbers integer float) : j.canonical.Numbers integer float := by
  induction h with
  | null => exact .null
  | bool b => exact .bool b
  | int h => exact .int h
  | float h => exact .float h
  | string s => exact .string s
  | array _ ih =>
      rw [canonical_array]
      exact .array (List.forall_mem_map.mpr ih)
  | object _ ih =>
      rw [canonical_object]
      exact .object (List.forall_mem_map.mpr fun m own => ih m (mem_sortMembers _ own))

end TablePlan.Json
