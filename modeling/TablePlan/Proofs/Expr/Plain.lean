import TablePlan.Function.Reference
import TablePlan.Proofs.Decimal.Positive
import TablePlan.Proofs.Expr.Traversal

/-!
# Expressions as they are written

A constant that is written has no sign, and no name that is written is that of a parameter. Among
expressions of this kind those that are written alike are equal, so references that share a
parameter are the same reference.
-/

namespace TablePlan

namespace Literal

/-- A float is written without a sign. -/
def Plain : Literal → Prop
  | float x => Decimal.Positive x
  | _ => True

theorem eq_of_same {a b : Literal} (ha : a.Plain) (hb : b.Plain) (h : a.same b) : a = b := by
  cases a <;> cases b <;> simp only [same, Bool.false_eq_true] at h
  case missing => rfl
  case float x y => rw [(Decimal.beq_iff_of_positive ha hb).mp h]
  all_goals rw [beq_iff_eq.mp h]

theorem same_self {a : Literal} (plain : a.Plain) : a.same a := by
  cases a with
  | float x => exact (Decimal.beq_iff_of_positive plain plain).mpr rfl
  | _ => simp [same]

end Literal

namespace Expr

/-- A node as it is written. -/
def Plain : Expr → Prop
  | literal value => value.Plain
  | ident name | splat name => ∀ number, name ≠ Binding.paramName number
  | _ => True

theorem eq_of_sameItems {as bs : List Expr} (part : ∀ a ∈ as, ∀ b ∈ bs, a.same b → a = b)
    (h : sameItems as bs) : as = bs := by
  induction as generalizing bs with
  | nil =>
      cases bs with
      | nil => rfl
      | cons b bs => exact absurd h (by simp [sameItems])
  | cons a as ih =>
      cases bs with
      | nil => exact absurd h (by simp [sameItems])
      | cons b bs =>
          rw [sameItems, Bool.and_eq_true] at h
          have first := part a (by simp) b (by simp) h.1
          have later := ih (fun c inside d other => part c (by simp [inside]) d (by simp [other])) h.2
          rw [first, later]

theorem eq_of_sameRows {as bs : List (List Expr)}
    (part : ∀ a ∈ as.flatten, ∀ b ∈ bs.flatten, a.same b → a = b) (h : sameRows as bs) :
    as = bs := by
  induction as generalizing bs with
  | nil =>
      cases bs with
      | nil => rfl
      | cons b bs => exact absurd h (by simp [sameRows])
  | cons a as ih =>
      cases bs with
      | nil => exact absurd h (by simp [sameRows])
      | cons b bs =>
          rw [sameRows, Bool.and_eq_true] at h
          rw [List.flatten_cons, List.flatten_cons] at part
          have first := eq_of_sameItems (fun c inside d other =>
            part c (List.mem_append_left _ inside) d (List.mem_append_left _ other)) h.1
          have later := ih (fun c inside d other =>
            part c (List.mem_append_right _ inside) d (List.mem_append_right _ other)) h.2
          rw [first, later]

theorem eq_of_sameFields {as bs : List (String × Expr)}
    (part : ∀ a ∈ as.map Prod.snd, ∀ b ∈ bs.map Prod.snd, a.same b → a = b)
    (h : sameFields as bs) : as = bs := by
  induction as generalizing bs with
  | nil =>
      cases bs with
      | nil => rfl
      | cons b bs => exact absurd h (by simp [sameFields])
  | cons a as ih =>
      cases bs with
      | nil => exact absurd h (by simp [sameFields])
      | cons b bs =>
          obtain ⟨name, value⟩ := a
          obtain ⟨name', value'⟩ := b
          rw [sameFields, Bool.and_eq_true, Bool.and_eq_true, beq_iff_eq] at h
          rw [List.map_cons, List.map_cons] at part
          have first : value = value' := part _ List.mem_cons_self _ List.mem_cons_self h.1.2
          have later := ih (fun c inside d other =>
            part c (List.mem_cons_of_mem _ inside) d (List.mem_cons_of_mem _ other)) h.2
          rw [h.1.1, first, later]

/-- Expressions that are written alike are equal. -/
theorem eq_of_same {a b : Expr} (ha : a.All Plain) (hb : b.All Plain) (h : a.same b) : a = b := by
  induction a using childInduction generalizing b with
  | step a ih =>
      have part : ∀ c ∈ a.children, ∀ d ∈ b.children, c.same d → c = d :=
        fun c own d other => ih c own (ha.child own) (hb.child other)
      clear ih
      cases a <;> cases b <;>
      simp only [same, Bool.false_eq_true, Bool.and_eq_true, beq_iff_eq] at h <;>
      simp only [children, List.forall_mem_cons] at part
      case literal.literal a b =>
        have constants : Literal.Plain a ∧ Literal.Plain b :=
          ⟨ha _ (self_mem_nodes _), hb _ (self_mem_nodes _)⟩
        rw [Literal.eq_of_same constants.1 constants.2 h]
      case ident.ident | column.column | splat.splat => rw [h]
      case interpolated.interpolated => rw [part.1.1 h]
      case unary.unary => rw [h.1.1, part.1.1 h.1.2, h.2]
      case directed.directed => rw [h.1, part.1.1 h.2]
      case call.call => rw [h.1.1, eq_of_sameItems part h.1.2, h.2]
      case vector.vector | tuple.tuple | block.block => rw [eq_of_sameItems part h]
      case matrix.matrix => rw [eq_of_sameRows part h]
      case record.record => rw [eq_of_sameFields part h]
      case binary.binary => rw [h.1.1.1, part.1.1 h.1.1.2, part.2.1.2.1 h.1.2, h.2]
      case assign.assign => rw [part.1.1 h.1, part.2.1.2.1 h.2]
      case conditional.conditional =>
        rw [part.1.1 h.1.1, part.2.1.2.1 h.1.2, part.2.2.1.2.2.1 h.2]
      case index.index =>
        have later := eq_of_sameItems (fun c inside d other => (part.2 c inside).2 d other) h.2
        rw [part.1.1 h.1, later]

theorem sameItems_self {items : List Expr} (part : ∀ a ∈ items, a.same a) :
    sameItems items items := by
  induction items with
  | nil => simp [sameItems]
  | cons a rest ih =>
      rw [List.forall_mem_cons] at part
      rw [sameItems, part.1, ih part.2, Bool.true_and]

theorem sameRows_self {rows : List (List Expr)} (part : ∀ a ∈ rows.flatten, a.same a) :
    sameRows rows rows := by
  induction rows with
  | nil => simp [sameRows]
  | cons row rest ih =>
      rw [List.flatten_cons, List.forall_mem_append] at part
      rw [sameRows, sameItems_self part.1, ih part.2, Bool.true_and]

theorem sameFields_self {fields : List (String × Expr)}
    (part : ∀ a ∈ fields.map Prod.snd, a.same a) : sameFields fields fields := by
  induction fields with
  | nil => simp [sameFields]
  | cons field rest ih =>
      rw [List.map_cons, List.forall_mem_cons] at part
      rw [sameFields, part.1, ih part.2, beq_self_eq_true, Bool.true_and, Bool.true_and]

/-- An expression without a float that is no number is written like itself. -/
theorem same_self {e : Expr} (plain : e.All Plain) : e.same e := by
  induction e using childInduction with
  | step e ih =>
      have part : ∀ c ∈ e.children, c.same c := fun c child => ih c child (plain.child child)
      have own : e.Plain := (all_iff.mp plain).1
      clear ih
      cases e <;> simp only [children, List.forall_mem_cons] at part <;>
        simp only [same, Bool.and_eq_true, beq_self_eq_true, and_true, true_and]
      case literal a => exact Literal.same_self own
      case interpolated | unary | directed => exact part.1
      case binary | assign => exact ⟨part.1, part.2.1⟩
      case conditional => exact ⟨⟨part.1, part.2.1⟩, part.2.2.1⟩
      case index => exact ⟨part.1, sameItems_self part.2⟩
      case call | vector | tuple | block => exact sameItems_self part
      case matrix => exact sameRows_self part
      case record => exact sameFields_self part

end Expr

namespace Reference

/-- A reference as it is written. -/
def Written : Reference → Prop
  | static spec => ∃ c : ColumnIdent, spec = c.toSpec
  | deferred inner => inner.All Expr.Plain

theorem eq_of_same {a b : Reference} (ha : a.Written) (hb : b.Written) (h : a == b) : a = b := by
  cases a <;> cases b
  case static.static a b =>
    obtain ⟨c, rfl⟩ := ha
    obtain ⟨d, rfl⟩ := hb
    change ColumnSpec.same c.toSpec d.toSpec = true at h
    cases c <;> cases d <;> simp only [ColumnIdent.toSpec, ColumnSpec.same, Bool.false_eq_true] at h
    all_goals rw [beq_iff_eq.mp h]
  case deferred.deferred a b => rw [Expr.eq_of_same ha hb h]
  all_goals cases h

/-- References that are written compare as what they are. -/
theorem beq_iff {a b : Reference} (ha : a.Written) (hb : b.Written) : a == b ↔ a = b := by
  refine ⟨eq_of_same ha hb, ?_⟩
  rintro rfl
  cases a with
  | deferred inner => exact Expr.same_self ha
  | static spec =>
      obtain ⟨c, rfl⟩ := ha
      change ColumnSpec.same c.toSpec c.toSpec = true
      cases c <;> simp [ColumnIdent.toSpec, ColumnSpec.same]

end Reference

namespace Expr

theorem written_of_reference? {e : Expr} {r : Reference} (plain : e.All Plain)
    (h : e.reference? = some r) : r.Written := by
  cases e <;> cases h
  case column c => exact ⟨c, rfl⟩
  case interpolated inner => exact plain.child (by simp [children])

end Expr

end TablePlan
