import TablePlan.Builtin.Standard
import TablePlan.Proofs.Effects
import TablePlan.Proofs.Stop
import TablePlan.Proofs.Value.WellFormed

/-!
# Standard functions are safe

A standard function that is called with a number of arguments it accepts finds all of them, and
makes a well-formed value of well-formed ones. Where it breaks off, a limit is exceeded.
-/

namespace TablePlan

variable {α β : Type}

/-- The result is a value with a property, or a failure for another reason than the number of
arguments, where a stop is one at a limit. -/
def Settles (P : α → Prop) : Except FunctionError α → Prop
  | .ok a => P a
  | .error e => e.Justified

namespace Settles

variable {P : α → Prop} {Q : β → Prop}

/-- A function that refuses its arguments as they are has found them all. -/
theorem throw {e : FunctionError} (h : e.Justified) :
    Settles P (throw e : Except FunctionError α) :=
  h

theorem stop {cause : Stop} (h : cause.Exceeded) :
    Settles P (.error (.stopped cause) : Except FunctionError α) := by
  refine throw ⟨nofun, ?_⟩
  rintro _ ⟨⟩
  exact h

theorem bind {x : Except FunctionError α} {f : α → Except FunctionError β} (first : Settles P x)
    (second : ∀ a, P a → Settles Q (f a)) : Settles Q (x >>= f) := by
  cases x with
  | error e => exact first
  | ok a => exact second a first

theorem mono {P' : α → Prop} {x : Except FunctionError α} (h : Settles P x)
    (weaker : ∀ a, P a → P' a) : Settles P' x := by
  cases x with
  | error e => exact h
  | ok a => exact weaker a h

theorem mapM {f : α → Except FunctionError β} {as : List α} (each : ∀ a ∈ as, Settles Q (f a)) :
    Settles (fun bs => ∀ b ∈ bs, Q b) (as.mapM f) := by
  induction as with
  | nil => exact List.forall_mem_nil _
  | cons a rest ih =>
      rw [List.forall_mem_cons] at each
      rw [List.mapM_cons]
      exact each.1.bind fun b first => (ih each.2).bind fun bs later =>
        List.forall_mem_cons.mpr ⟨first, later⟩

/-! ### Arguments -/

variable {v : Value}

theorem expectString (v : Value) : Settles (fun _ => True) v.expectString := by
  unfold Value.expectString
  split
  · trivial
  · exact .throw (by simp)

theorem expectNumber (v : Value) : Settles (fun _ => True) v.expectNumber := by
  unfold Value.expectNumber
  split
  · trivial
  · exact .throw (by simp)

theorem expectInt (v : Value) : Settles (fun _ => True) v.expectInt := by
  unfold Value.expectInt
  split
  · trivial
  · exact .throw (by simp)

theorem expectSpec (v : Value) : Settles (fun _ => True) v.expectSpec := by
  unfold Value.expectSpec
  cases result : v.toSpec with
  | ok s => trivial
  | error e => exact .throw ⟨nofun, Value.justified_of_toSpec result⟩

theorem expectElements (h : v.WellFormed) :
    Settles (fun items => ∀ e ∈ items, e.WellFormed) v.expectElements := by
  unfold Value.expectElements
  split
  · exact h.of_list
  · exact h.of_grid.2
  · exact .throw (by simp)

end Settles

namespace PureFunction

/-- Called with a number of arguments that it accepts, the function finds them all, and gives a
well-formed value for well-formed ones. -/
def Safe (f : PureFunction) : Prop :=
  ∀ args, f.signature.arity.accepts args.length → (∀ v ∈ args, v.WellFormed) →
    Settles Value.WellFormed (f.run args)

theorem safe_of_one {signature : Signature} {run : List Value → Except FunctionError Value}
    (arity : signature.arity = .exact 1)
    (h : ∀ v, v.WellFormed → Settles Value.WellFormed (run [v])) : Safe ⟨signature, run⟩ := by
  intro args count each
  rw [arity] at count
  obtain ⟨v, rfl⟩ := List.length_eq_one_iff.mp (beq_iff_eq.mp count)
  exact h v (each v List.mem_cons_self)

theorem safe_unary {name : String} {f : Value → Except FunctionError Value}
    (h : ∀ v, v.WellFormed → Settles Value.WellFormed (f v)) : (unary name f).Safe :=
  safe_of_one rfl h

theorem safe_passing {name : String} {f : Value → Except FunctionError Value}
    (h : ∀ v, v.WellFormed → Settles Value.WellFormed (f v)) : (passing name f).Safe := by
  refine safe_unary fun v whole => ?_
  split
  · exact .atomic trivial
  · exact h v whole

theorem safe_of_two {signature : Signature} {run : List Value → Except FunctionError Value}
    (arity : signature.arity = .exact 2)
    (h : ∀ v w, Settles Value.WellFormed (run [v, w])) : Safe ⟨signature, run⟩ := by
  intro args count each
  rw [arity] at count
  obtain ⟨v, w, rfl⟩ := List.length_eq_two.mp (beq_iff_eq.mp count)
  exact h v w

/-- A function of one or two arguments. -/
theorem safe_of_range {signature : Signature} {run : List Value → Except FunctionError Value}
    (arity : signature.arity = .range 1 2)
    (one : ∀ v, v.WellFormed → Settles Value.WellFormed (run [v]))
    (two : ∀ v w, v.WellFormed → Settles Value.WellFormed (run [v, w])) :
    Safe ⟨signature, run⟩ := by
  intro args count each
  have known : args.length = 1 ∨ args.length = 2 := by
    rw [arity] at count
    simp only [Arity.accepts, Bool.and_eq_true, decide_eq_true_eq] at count
    omega
  obtain known | known := known
  · obtain ⟨v, rfl⟩ := List.length_eq_one_iff.mp known
    exact one v (each v List.mem_cons_self)
  · obtain ⟨v, w, rfl⟩ := List.length_eq_two.mp known
    exact two v w (each v List.mem_cons_self)

theorem safe_reduction {name : String} {f : List Value → Except FunctionError Value}
    (h : ∀ items, (∀ v ∈ items, v.WellFormed) → Settles Value.WellFormed (f items)) :
    (reduction name f).Safe :=
  safe_of_one rfl fun _ whole => (Settles.expectElements whole).bind h

end PureFunction

namespace Builtin

open PureFunction

/-! ### Numbers -/

theorem settles_absolute (v : Value) : Settles Value.WellFormed (absolute v) := by
  unfold absolute
  split
  · split
    · exact .stop (exceeded_of_least ‹_›)
    · exact .atomic trivial
  · exact (Settles.expectNumber _).bind fun _ _ => .atomic trivial

theorem settles_nonNegative (name : String) (f : Float → Float) (v : Value) :
    Settles Value.WellFormed (nonNegative name f v) := by
  refine (Settles.expectNumber v).bind fun x _ => ?_
  split
  · exact .throw (by simp)
  · exact .atomic trivial

theorem settles_rounding (f : Float → Float) (v : Value) :
    Settles Value.WellFormed (rounding f v) := by
  unfold rounding
  split
  · exact .atomic trivial
  · exact .atomic trivial
  · exact .throw (by simp)

theorem settles_toFloat (v : Value) : Settles Value.WellFormed (toFloat v) := by
  unfold toFloat
  split
  · exact .atomic trivial
  · exact (Settles.expectNumber _).bind fun _ _ => .atomic trivial

theorem settles_toInteger (v : Value) : Settles Value.WellFormed (toInteger v) := by
  unfold toInteger
  split
  · exact .atomic trivial
  · exact .atomic trivial
  · dsimp only
    split
    · split
      · exact .atomic trivial
      · exact .throw (by simp)
    · exact .throw (by simp)
  · exact .throw (by simp)

theorem numeric_safe : ∀ f ∈ numeric, f.Safe := by
  simp only [numeric, List.forall_mem_cons]
  refine ⟨?_, ?_, ?_, ?_, ?_, ?_, ?_, ?_, ?_, ?_, ?_, ?_, ?_, List.forall_mem_nil _⟩
  · exact safe_passing fun v _ => settles_absolute v
  · exact safe_passing fun v _ => settles_nonNegative _ _ v
  · exact safe_passing fun v _ => (Settles.expectNumber v).bind fun _ _ => .atomic trivial
  · exact safe_passing fun v _ => settles_nonNegative _ _ v
  · exact safe_passing fun v _ => settles_rounding _ v
  · exact safe_passing fun v _ => settles_rounding _ v
  · exact safe_passing fun v _ => settles_rounding _ v
  · exact safe_passing fun v _ => settles_toFloat v
  · exact safe_passing fun v _ => settles_toFloat v
  · exact safe_passing fun v _ => settles_toFloat v
  · exact safe_passing fun v _ => settles_toInteger v
  · exact safe_passing fun v _ => settles_toInteger v
  · exact fun _ _ _ => .atomic trivial

/-! ### Texts -/

theorem texts_wellFormed {items : List α} (f : α → Value) (single : ∀ a, (f a).Atomic) :
    (Value.list (items.map f)).WellFormed := by
  refine .list fun v inside => ?_
  obtain ⟨a, -, rfl⟩ := List.mem_map.mp inside
  exact .atomic (single a)

theorem textual_safe (name : String) (f : String → String) : (textual name f).Safe :=
  safe_unary fun v _ => (Settles.expectString v).bind fun _ _ => .atomic trivial

theorem textTest_safe (name : String) (test : String → String → Bool) : (textTest name test).Safe :=
  safe_of_two rfl fun v w => (Settles.expectString v).bind fun _ _ =>
    (Settles.expectString w).bind fun _ _ => .atomic trivial

theorem settles_length {v : Value} (whole : v.WellFormed) :
    Settles Value.WellFormed (length v) := by
  unfold length
  split
  · exact .atomic trivial
  · exact .atomic trivial
  · exact (Settles.expectElements whole).bind fun _ _ => .atomic trivial

theorem splitPieces_safe {signature : Signature} (arity : signature.arity = .range 1 2) :
    Safe ⟨signature, splitPieces⟩ := by
  refine safe_of_range arity (fun v _ => ?_) fun v w _ => ?_
  · exact (Settles.expectString v).bind fun _ _ => texts_wellFormed _ fun _ => trivial
  · exact (Settles.expectString v).bind fun _ _ => (Settles.expectString w).bind fun _ _ =>
      texts_wellFormed _ fun _ => trivial

theorem joinPieces_safe {signature : Signature} (arity : signature.arity = .range 1 2) :
    Safe ⟨signature, joinPieces⟩ := by
  refine safe_of_range arity (fun v whole => ?_) fun v w whole => ?_
  · exact (Settles.expectElements whole).bind fun _ _ => .atomic trivial
  · exact (Settles.expectString w).bind fun _ _ => (Settles.expectElements whole).bind fun _ _ =>
      .atomic trivial

theorem replacePart_safe {signature : Signature} (arity : signature.arity = .exact 3) :
    Safe ⟨signature, replacePart⟩ := by
  intro args count _
  rw [arity] at count
  obtain ⟨v, part, insert, rfl⟩ := List.length_eq_three.mp (beq_iff_eq.mp count)
  exact (Settles.expectString v).bind fun _ _ => (Settles.expectString part).bind fun _ _ =>
    (Settles.expectString insert).bind fun _ _ => .atomic trivial

theorem texts_safe : ∀ f ∈ texts, f.Safe := by
  simp only [texts, List.forall_mem_cons]
  exact ⟨textual_safe _ _, textual_safe _ _, textual_safe _ _, textual_safe _ _,
    splitPieces_safe rfl, joinPieces_safe rfl, safe_unary fun _ => settles_length,
    replacePart_safe rfl, textTest_safe _ _, textTest_safe _ _, textTest_safe _ _,
    List.forall_mem_nil _⟩

/-! ### Collections -/

theorem settles_parity (remainder : Int) (v : Value) :
    Settles Value.WellFormed (parity remainder v) := by
  unfold parity
  split
  · exact .atomic trivial
  · exact (Settles.expectInt v).bind fun _ _ => .atomic trivial

theorem settles_orRefuse {end? : Option Value} (each : ∀ v ∈ end?, v.WellFormed) :
    Settles Value.WellFormed (orRefuse end?) := by
  cases end? with
  | none => exact .throw (by simp)
  | some v => exact each v rfl

theorem settles_character (c : Option Char) :
    Settles Value.WellFormed (orRefuse (c.map single)) := by
  refine settles_orRefuse fun v inside => ?_
  obtain ⟨c, -, rfl⟩ := Option.map_eq_some_iff.mp inside
  exact .atomic trivial

theorem settles_firstElement {v : Value} (whole : v.WellFormed) :
    Settles Value.WellFormed (firstElement v) := by
  unfold firstElement
  split
  · exact settles_character _
  · exact (Settles.expectElements whole).bind fun items each =>
      settles_orRefuse fun v inside => each v (List.mem_of_head? inside)

theorem settles_lastElement {v : Value} (whole : v.WellFormed) :
    Settles Value.WellFormed (lastElement v) := by
  unfold lastElement
  split
  · exact settles_character _
  · exact (Settles.expectElements whole).bind fun items each =>
      settles_orRefuse fun v inside => each v (List.mem_of_getLast? inside)

theorem settles_collect {v : Value} (whole : v.WellFormed) :
    Settles Value.WellFormed (collect v) := by
  unfold collect
  split
  · exact texts_wellFormed _ fun _ => trivial
  · exact (Settles.expectElements whole).bind fun _ each => .list each

theorem settles_reversed {v : Value} (whole : v.WellFormed) :
    Settles Value.WellFormed (reversed v) := by
  unfold reversed
  split
  · exact .atomic trivial
  · exact .list fun e inside => whole.of_list e (List.mem_reverse.mp inside)
  · exact .throw (by simp)

/-- A list becomes a row, and a matrix has all its elements when it is transposed. -/
theorem settles_transposed {v : Value} (whole : v.WellFormed) :
    Settles Value.WellFormed (transposed v) := by
  unfold transposed
  split
  · exact .grid (by simp [Grid.WellFormed]) whole.of_list
  · rename_i g
    split
    · rename_i t made
      obtain ⟨rows, columns, matrix⟩ := Grid.matrix_of_transposed? made
      obtain ⟨t', made', -, complete, same⟩ := whole.of_grid.1.exists_transposed? matrix
      obtain rfl : t = t' := Option.some.inj (made.symm.trans made')
      exact .grid complete fun e inside => whole.of_grid.2 e (same e inside)
    · exact .throw (by simp)
  · exact .throw (by simp)

theorem collections_safe : ∀ f ∈ collections, f.Safe := by
  simp only [collections, List.forall_mem_cons]
  refine ⟨?_, ?_, ?_, ?_, ?_, ?_, ?_, ?_, ?_, ?_, ?_, ?_, List.forall_mem_nil _⟩
  · exact safe_unary fun _ _ => .atomic trivial
  · exact safe_unary fun _ _ => .atomic trivial
  · intro args _ each
    change Value.WellFormed ((args.find? fun v => !v.isMissing).getD .missing)
    cases found : args.find? fun v => !v.isMissing with
    | none => exact .atomic trivial
    | some v => exact each v (List.mem_of_find?_eq_some found)
  · exact safe_unary fun v _ => settles_parity _ v
  · exact safe_unary fun v _ => settles_parity _ v
  · exact safe_unary fun _ => settles_firstElement
  · exact safe_unary fun _ => settles_lastElement
  · exact safe_unary fun _ => settles_collect
  · exact safe_unary fun _ whole => (Settles.expectElements whole).bind fun _ each => .list each
  · exact safe_unary fun _ => settles_reversed
  · exact safe_unary fun _ => settles_transposed
  · exact safe_unary fun _ whole => (Settles.expectElements whole).bind fun _ each =>
      .list fun e inside => each e (List.mem_of_mem_filter inside)

/-! ### Reductions -/

theorem poisoned_safe {name : String} {f : List Value → Except FunctionError Value}
    (h : ∀ items, (∀ v ∈ items, v.WellFormed) → Settles Value.WellFormed (f items)) :
    (poisoned name f).Safe := by
  refine safe_reduction fun items each => ?_
  split
  · exact .atomic trivial
  · exact h items each

theorem settles_sumInts (total : Int) (ints : List Int64) :
    Settles (fun _ => True) (sumInts total ints) := by
  induction ints generalizing total with
  | nil => trivial
  | cons i rest ih =>
      simp only [sumInts]
      split
      · exact ih _
      · exact .throw (by simp)

theorem settles_numbers (items : List Value) : Settles (fun _ => True) (numbers items) :=
  (Settles.mapM fun v _ => Settles.expectNumber v).mono fun _ _ => trivial

/-- The places of the middle elements are inside of a list that has any. -/
theorem middle_lt {xs : List Float} (some : xs ≠ []) (le : Float → Float → Bool) :
    xs.length / 2 < (xs.mergeSort le).length ∧ xs.length / 2 - 1 < (xs.mergeSort le).length := by
  have positive := List.length_pos_iff.mpr some
  rw [List.length_mergeSort]
  omega

theorem settles_someNumbers (name : String) (items : List Value) :
    Settles (fun xs => xs ≠ []) (someNumbers name items) := by
  refine (settles_numbers items).bind fun xs _ => ?_
  split
  · exact .throw (by simp)
  · rename_i filled
    exact fun empty => filled (by rw [empty]; rfl)

theorem settles_median (xs : List Float) : Settles (fun _ => True) (median xs) := by
  unfold median
  split
  · exact .stop (exceeded_of_disordered ‹_›)
  · trivial

theorem settles_total (items : List Value) : Settles Value.WellFormed (total items) := by
  unfold total
  split
  · exact (settles_sumInts _ _).bind fun _ _ => .atomic trivial
  · exact (settles_numbers items).bind fun _ _ => .atomic trivial

theorem settles_variance (items : List Value) : Settles (fun _ => True) (variance items) := by
  refine (settles_numbers items).bind fun xs _ => ?_
  split
  · exact .throw (by simp)
  · trivial

theorem settles_extremeFrom (wanted : Ordering) {best : Value} (whole : best.WellFormed)
    {items : List Value} (each : ∀ v ∈ items, v.WellFormed) :
    Settles Value.WellFormed (extremeFrom wanted best items) := by
  induction items generalizing best with
  | nil => exact whole
  | cons item rest ih =>
      rw [List.forall_mem_cons] at each
      rw [extremeFrom]
      split
      · refine ih ?_ each.2
        split
        · exact each.1
        · exact whole
      · exact .throw (by simp)

theorem settles_extreme (wanted : Ordering) {items : List Value}
    (each : ∀ v ∈ items, v.WellFormed) : Settles Value.WellFormed (extreme wanted items) := by
  cases items with
  | nil => exact .throw (by simp)
  | cons first rest =>
      rw [List.forall_mem_cons] at each
      exact settles_extremeFrom wanted each.1 each.2

theorem settles_countTrue (items : List Value) : Settles (fun _ => True) (countTrue items) := by
  induction items with
  | nil => trivial
  | cons item rest ih =>
      unfold countTrue
      split
      · trivial
      · rename_i same
        cases same
        exact ih.bind fun _ _ => trivial
      · exact .throw (by simp)

theorem reductions_safe : ∀ f ∈ reductions, f.Safe := by
  simp only [reductions, List.forall_mem_cons]
  refine ⟨?_, ?_, ?_, ?_, ?_, ?_, ?_, ?_, List.forall_mem_nil _⟩
  · exact poisoned_safe fun items _ => settles_total items
  · exact poisoned_safe fun items _ => (settles_someNumbers _ items).bind fun _ _ => .atomic trivial
  · exact poisoned_safe fun items _ => (settles_someNumbers _ items).bind fun xs _ =>
      (settles_median xs).bind fun _ _ => .atomic trivial
  · exact poisoned_safe fun _ => settles_extreme _
  · exact poisoned_safe fun _ => settles_extreme _
  · exact poisoned_safe fun items _ => (settles_variance items).bind fun _ _ => .atomic trivial
  · exact poisoned_safe fun items _ => (settles_variance items).bind fun _ _ => .atomic trivial
  · exact safe_reduction fun items _ => (settles_countTrue items).bind fun _ _ => .atomic trivial

/-! ### Selectors -/

theorem nameTest_safe (name : String) (test : String → NamePredicate) : (nameTest name test).Safe :=
  safe_of_one rfl fun v _ => (Settles.expectString v).bind fun _ _ => .spec _

theorem columns_safe {signature : Signature} : Safe ⟨signature, columns⟩ := by
  intro args _ _
  change Settles Value.WellFormed (columns args)
  unfold columns
  split
  · exact (Settles.expectSpec _).bind fun _ _ => .spec _
  · exact (Settles.mapM fun v _ => Settles.expectSpec v).bind fun _ _ => .spec _

theorem selectors_safe : ∀ f ∈ selectors, f.Safe := by
  simp only [selectors, List.forall_mem_cons]
  refine ⟨fun _ _ _ => .spec _, ?_, ?_, columns_safe, nameTest_safe _ _, nameTest_safe _ _,
    nameTest_safe _ _, List.forall_mem_nil _⟩
  · exact safe_of_one rfl fun v _ => (Settles.expectSpec v).bind fun _ _ => .spec _
  · exact safe_of_two rfl fun v w => (Settles.expectSpec v).bind fun _ _ =>
      (Settles.expectSpec w).bind fun _ _ => .spec _

/-- Every standard function is safe. -/
theorem all_safe : ∀ f ∈ all, f.Safe := by
  simp only [all, List.forall_mem_append]
  exact ⟨⟨⟨⟨numeric_safe, texts_safe⟩, collections_safe⟩, reductions_safe⟩, selectors_safe⟩

end Builtin

end TablePlan
