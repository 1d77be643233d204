import TablePlan.Proofs.Eval.Safe
import TablePlan.Proofs.Eval.Stepping
import TablePlan.Proofs.Value.Equality

/-!
# Comparing collections

With dots, `==` and `!=` compare two lists of the same length element by element, and each result is
that of comparing the two elements on their own, with one exception: a result that is missing
although neither element is comes out as false. The two elements are then lists themselves.

Without dots, lists are compared by value but grids by structure, which makes a difference where
grids hold missing values, or integers against floats.
-/

namespace TablePlan

variable {σ : Type}

namespace Eval

open Value

/-- Broadcasting over two lists of the same length goes through them side by side. -/
theorem broadcast_lists {m : Type → Type} [Monad m] [LawfulMonad m] [MonadExceptOf EvalError m]
    (f : List Value → m Value) {xs ys : List Value} (same : xs.length = ys.length) :
    broadcast f [list xs, list ys] = list <$> (xs.zip ys).mapM fun pair => f [pair.1, pair.2] := by
  have count : (xs.zip ys).length = Shape.size [xs.length] := by simp [same]
  rw [map_eq_pure_bind]
  simp only [broadcast, List.map_cons, List.map_nil, shape_list, ← same, Shape.common?_pair_self,
    Shape.enumerate?_of_fits (Shape.fits_vector xs.length)]
  refine congrArg (· >>= fun results => pure (list results))
    (mapM_congr_forall₂ ((Shape.forall₂_indices count).imp fun index pair there => ?_))
  obtain ⟨first, second⟩ := List.getElem?_zip_eq_some.mp there
  have aligned : [list xs, list ys].mapM (fun arg => alignedElement? arg index)
      = some [pair.1, pair.2] := by
    rw [same] at second
    exact mapM_some_iff.mpr (.cons first (.cons second .nil))
  rw [aligned]

/-- The result of `==` or `!=` on two values as a whole. -/
def compared (op : BinaryOp) (a b : Value) : Value :=
  match a.equal? b with
  | some equal => bool (equal == (op == .eq))
  | none => missing

theorem isMissing_compared (op : BinaryOp) (a b : Value) :
    (compared op a b).isMissing = (a.equal? b).isNone := by
  unfold compared
  cases a.equal? b <;> rfl

/-- The three truth values. -/
theorem compared_mem (op : BinaryOp) (a b : Value) :
    compared op a b ∈ [bool true, bool false, missing] := by
  unfold compared
  split
  · cases _ == (op == .eq) <;> simp
  · simp

theorem compared_eq_iff {a b : Value} {t : Bool} :
    compared .eq a b = bool t ↔ a.equal? b = some t := by
  unfold compared
  cases a.equal? b with
  | none => simp
  | some equal => cases equal <;> cases t <;> simp

/-- The result between two elements: what depends on a missing value within them is false. -/
def comparedElements (op : BinaryOp) (a b : Value) : Value :=
  if (compared op a b).isMissing && !(a.isMissing || b.isMissing) then .bool false
  else compared op a b

section

variable {op : BinaryOp} (comparison : op = .eq ∨ op = .ne)
include comparison

theorem wholeBinary_of_comparison (a b : Value) :
    wholeBinary op a b = .ok (compared op a b) := by
  obtain rfl | rfl := comparison <;> rw [wholeBinary, compared] <;> cases a.equal? b <;> rfl

theorem binary_of_comparison (a b : Value) : binary op a b = .ok (comparedElements op a b) := by
  by_cases absent : (a.isMissing || b.isMissing) = true
  · have depends : a.equal? b = none := by
      cases a with
      | missing => rfl
      | _ =>
          cases b with
          | missing => rfl
          | _ => cases absent
    simp only [binary, comparedElements, compared, depends, absent]
    rfl
  · rw [Bool.not_eq_true] at absent
    obtain rfl | rfl := comparison <;> simp only [binary, comparedElements, compared, absent] <;>
      cases a.equal? b with
      | none => rfl
      | some equal => cases equal <;> rfl

end

section

variable {registry : Registry σ} {setting : Setting} {left right : Expr} {m : Machine σ}
variable {xs ys : List Value}

/-- An element of a list by its position, written counting from one. -/
theorem eval_element {items : List Value} (known : eval registry setting left m = (.ok (.list items), m))
    {i : Nat} {k : Int64} (place : k.toInt = i + 1) {a : Value} (there : items[i]? = some a) :
    eval registry setting (.index left [.literal (.int k)]) m = (.ok a, m) := by
  have element : index (.list items) [.int k] = .ok a := by
    rw [index]
    exact elementOf_of_count place there
  have indices : evalItems registry setting [.literal (.int k)] m = (.ok [.int k], m) := rfl
  rw [eval_index_of_ok known indices, element]

/-- Two lists of the same length are compared with dots to a list of results. Each is the result of
comparing the two elements without dots; but where that is missing and neither of the elements is,
which happens only between lists of the same length, it is false. -/
theorem dotted_comparison {op : BinaryOp} (comparison : op = .eq ∨ op = .ne)
    (first : eval registry setting left m = (.ok (.list xs), m))
    (second : eval registry setting right m = (.ok (.list ys), m)) (same : xs.length = ys.length) :
    ∃ results, eval registry setting (.binary op left right true) m = (.ok (.list results), m)
      ∧ results.length = xs.length
      ∧ ∀ (i : Nat) (k : Int64), k.toInt = i + 1 → ∀ a b, xs[i]? = some a → ys[i]? = some b →
        let element (list : Expr) := Expr.index list [.literal (.int k)]
        ∃ v ∈ [Value.bool true, .bool false, .missing],
          eval registry setting (.binary op (element left) (element right) false) m = (.ok v, m)
          ∧ results[i]? = some (if v.isMissing && !(a.isMissing || b.isMissing)
            then .bool false else v)
          ∧ ((v.isMissing && !(a.isMissing || b.isMissing)) = true →
            ∃ as bs, a = .list as ∧ b = .list bs ∧ as.length = bs.length) := by
  have total : op ≠ .and ∧ op ≠ .or := by obtain rfl | rfl := comparison <;> simp
  have each : ((xs.zip ys).mapM fun pair => binary op pair.1 pair.2)
      = .ok ((xs.zip ys).map fun pair => comparedElements op pair.1 pair.2) := by
    simp only [binary_of_comparison comparison]
    exact List.mapM_pure
  have whole : operated op true (.list xs) (.list ys)
      = .ok (.list ((xs.zip ys).map fun pair => comparedElements op pair.1 pair.2)) := by
    rw [operated, if_pos rfl, broadcast_lists _ same, each]
    rfl
  refine ⟨_, by rw [eval_binary_of_ok total first second, whole], by simp [same],
    fun i k place a b there there' =>
      ⟨compared op a b, compared_mem op a b, ?_, ?_, fun exception => ?_⟩⟩
  · rw [eval_binary_of_ok total (eval_element first place there) (eval_element second place there')]
    exact congrArg (·, m) (wholeBinary_of_comparison comparison a b)
  · have pair : (xs.zip ys)[i]? = some (a, b) := List.getElem?_zip_eq_some.mpr ⟨there, there'⟩
    rw [List.getElem?_map, pair]
    rfl
  · rw [Bool.and_eq_true, Bool.not_eq_true', Bool.or_eq_false_iff, isMissing_compared,
      Option.isNone_iff_eq_none] at exception
    exact lists_of_equal?_eq_none exception.1 exception.2.1 exception.2.2

/-- At the first position a comparison with dots is false where it would be missing without; at the
second it makes no difference. -/
theorem nested_missing_comparison : ∃ results,
    let m : Machine Unit :=
      ⟨(Env.empty.push "xs" (.list [.list [.missing], .int 1])).push "ys"
        (.list [.list [.int 1], .int 1]), ()⟩
    let evaluated := eval (Registry.empty "1") .body
    let element (name : String) (k : Int64) := Expr.index (.ident name) [.literal (.int k)]
    evaluated (.binary .eq (.ident "xs") (.ident "ys") true) m = (.ok (.list results), m)
    ∧ evaluated (.binary .eq (element "xs" 1) (element "ys" 1) false) m = (.ok .missing, m)
    ∧ results[0]? = some (.bool false)
    ∧ evaluated (.binary .eq (element "xs" 2) (element "ys" 2) false) m = (.ok (.bool true), m)
    ∧ results[1]? = some (.bool true) := by
  let m : Machine Unit :=
    ⟨(Env.empty.push "xs" (.list [.list [.missing], .int 1])).push "ys"
      (.list [.list [.int 1], .int 1]), ()⟩
  have first : eval (Registry.empty "1") .body (.ident "xs") m
      = (.ok (.list [.list [.missing], .int 1]), m) := eval_ident_of_get? rfl
  have second : eval (Registry.empty "1") .body (.ident "ys") m
      = (.ok (.list [.list [.int 1], .int 1]), m) := eval_ident_of_get? rfl
  obtain ⟨results, ran, -, each⟩ := dotted_comparison (.inl rfl) first second rfl
  obtain ⟨v, -, alone, dotted, -⟩ := each 0 1 rfl _ _ rfl rfl
  obtain ⟨w, -, alone', dotted', -⟩ := each 1 2 rfl _ _ rfl rfl
  cases alone
  cases alone'
  exact ⟨results, ran, rfl, dotted, rfl, dotted'⟩

/-! ### Grids -/

/-- The elements of a grid as a list. -/
theorem eval_vec (version : String) {g : Grid Value}
    (known : eval (.standard version) setting left m = (.ok (.grid g), m)) :
    eval (.standard version) setting (.call "vec" [left] false) m = (.ok (.list g.elements), m) := by
  have items : evalItems (.standard version) setting [left] m = (.ok [.grid g], m) := by
    rw [evalItems, bind_of_ok known]
    rfl
  have called : EvalM.call (.standard version) "vec" [.grid g] m = (.ok (.list g.elements), m) := by
    rw [Parallel.run_call, Registry.call_of_pure
      (f := .unary "vec" fun v => return .list (← v.expectElements)) rfl]
    rfl
  rw [eval, bind_of_ok items]
  exact called

/-- Grids of the same shape are equal if they hold the same elements, while the lists of their
elements are equal if the elements are equal by value. The two comparisons agree exactly if the
latter is false, or no element of a grid is mixed with the one at the same place of the other. -/
theorem grid_equality (version : String) {g h : Grid Value}
    (first : eval (.standard version) setting left m = (.ok (.grid g), m))
    (second : eval (.standard version) setting right m = (.ok (.grid h), m))
    (same : g.shape = h.shape) :
    let vec (e : Expr) := Expr.call "vec" [e] false
    ∃ v ∈ [Value.bool true, .bool false], ∃ w ∈ [Value.bool true, .bool false, .missing],
      eval (.standard version) setting (.binary .eq left right false) m = (.ok v, m)
      ∧ eval (.standard version) setting (.binary .eq (vec left) (vec right) false) m = (.ok w, m)
      ∧ (v = .bool true ↔ sameItems g.elements h.elements = true)
      ∧ (v = w ↔ w = .bool false ∨ ∀ pair ∈ g.elements.zip h.elements, ¬ Mixed pair.1 pair.2) := by
  intro vec
  have structural : (Value.grid g).equal? (.grid h) = some (sameItems g.elements h.elements) := by
    change some ((Value.grid g).same (.grid h)) = _
    rw [Value.same, same, beq_self_eq_true, Bool.true_and]
  have whole := compared_eq_iff.mpr structural
  have computed {x y : Value} {e e' : Expr} (one : eval (.standard version) setting e m = (.ok x, m))
      (other : eval (.standard version) setting e' m = (.ok y, m)) :
      eval (.standard version) setting (.binary .eq e e' false) m = (.ok (compared .eq x y), m) := by
    rw [eval_binary_of_ok (by simp) one other]
    exact congrArg (·, m) (wholeBinary_of_comparison (.inl rfl) x y)
  refine ⟨.bool (sameItems g.elements h.elements), ?_, compared .eq (.list g.elements) (.list h.elements),
    compared_mem _ _ _, ?_, computed (eval_vec version first) (eval_vec version second), ?_, ?_⟩
  · cases sameItems g.elements h.elements <;> simp
  · rw [← whole]
    exact computed first second
  · rw [Value.bool.injEq]
  · have agree := equal?_eq_same_iff (a := .list g.elements) (b := .list h.elements)
    simp only [mixed_list_iff, not_exists, not_and] at agree
    rw [eq_comm, compared_eq_iff, compared_eq_iff]
    exact agree

/-- Two matrices with the same missing element are equal, though the lists of their elements compare
as missing. -/
theorem matrices_with_missing :
    let g : Grid Value := ⟨[2, 1], [.int 1, .missing]⟩
    let m : Machine Unit := ⟨(Env.empty.push "g" (.grid g)).push "h" (.grid g), ()⟩
    let evaluated := eval (.standard "1") .body
    let vec (name : String) := Expr.call "vec" [.ident name] false
    evaluated (.binary .eq (.ident "g") (.ident "h") false) m = (.ok (.bool true), m)
    ∧ evaluated (.binary .eq (vec "g") (vec "h") false) m = (.ok .missing, m) := by
  intro g m evaluated vec
  have first : evaluated (.ident "g") m = (.ok (.grid g), m) := eval_ident_of_get? rfl
  have second : evaluated (.ident "h") m = (.ok (.grid g), m) := eval_ident_of_get? rfl
  obtain ⟨v, -, w, truth, whole, listed, held, agree⟩ := grid_equality "1" first second rfl
  obtain rfl : v = .bool true := held.mpr rfl
  -- Both elements at the second place are missing, so the two results differ.
  have mixed : ¬ ∀ pair ∈ g.elements.zip g.elements, ¬ Mixed pair.1 pair.2 := fun none =>
    none (.missing, .missing) (by simp [g]) (.missingLeft _)
  rw [or_iff_left mixed] at agree
  simp only [List.mem_cons, List.not_mem_nil, or_false] at truth
  obtain rfl | rfl | rfl := truth
  · exact absurd (agree.mp rfl) (by simp)
  · exact absurd (agree.mpr rfl) (by simp)
  · exact ⟨whole, listed⟩

end

end Eval

end TablePlan
