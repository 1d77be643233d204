import TablePlan.Proofs.Argument.Body

/-!
# Conflicting modes

Directives that ask for both modes may stand anywhere: around an argument, around the value of its
assignment, or inside, where none belongs. Taking the argument apart loses none of their letters, so
the conflict is found wherever they stand. Only a directive that collects, on the right of an
assignment, is refused before its letters are put together with the others.
-/

namespace TablePlan

namespace Directives

/-- The letters that directives are made of. -/
def alphabet : List Char := ['r', 'c', 'm', 't']

/-- The directives that a text of such letters stands for. -/
def ofText (text : String) : Directives :=
  ⟨text.toList.contains 'r', text.toList.contains 'c', text.toList.contains 'm',
    text.toList.contains 't'⟩

/-- The directives that several texts stand for together. -/
def ofTexts (texts : List String) : Directives :=
  texts.foldr (fun text d => (ofText text).union d) empty

@[simp] theorem union_empty (d : Directives) : d.union empty = d := by
  simp [union, empty]

@[simp] theorem empty_union (d : Directives) : empty.union d = d := by
  simp [union, empty]

theorem union_assoc (a b c : Directives) : (a.union b).union c = a.union (b.union c) := by
  simp [union, Bool.or_assoc]

theorem union_left_comm (a b c : Directives) : a.union (b.union c) = b.union (a.union c) := by
  simp [union, Bool.or_left_comm]

theorem ofTexts_append (texts more : List String) :
    ofTexts (texts ++ more) = (ofTexts texts).union (ofTexts more) := by
  induction texts with
  | nil => exact (empty_union _).symm
  | cons text rest ih =>
      change (ofText text).union (ofTexts (rest ++ more))
        = ((ofText text).union (ofTexts rest)).union (ofTexts more)
      rw [ih, union_assoc]

/-- The order of directives does not matter. -/
theorem ofTexts_perm {texts texts' : List String} (same : texts.Perm texts') :
    ofTexts texts = ofTexts texts' := by
  induction same with
  | nil => rfl
  | cons text _ ih => exact congrArg (ofText text).union ih
  | swap text other rest => exact union_left_comm (ofText other) (ofText text) (ofTexts rest)
  | trans _ _ first second => exact first.trans second

/-- A directive is among several texts if one of them has its letter. -/
theorem ofTexts_eq (texts : List String) :
    ofTexts texts = ⟨texts.any fun text => text.toList.contains 'r',
      texts.any fun text => text.toList.contains 'c', texts.any fun text => text.toList.contains 'm',
      texts.any fun text => text.toList.contains 't'⟩ := by
  induction texts with
  | nil => rfl
  | cons text rest ih =>
      change (ofText text).union (ofTexts rest) = _
      rw [ih]
      rfl

/-- The error for a directive without letters. -/
def noLetters : ArgumentError := .malformedDirective "" "no directive letters"

theorem ofLetters_known {whole : String} {cs : List Char} (known : ∀ c ∈ cs, c ∈ alphabet) :
    ofLetters whole cs
      = .ok ⟨cs.contains 'r', cs.contains 'c', cs.contains 'm', cs.contains 't'⟩ := by
  induction cs with
  | nil => rfl
  | cons c rest ih =>
      rw [List.forall_mem_cons] at known
      have letter := known.1
      simp only [alphabet, List.mem_cons, List.not_mem_nil, or_false] at letter
      rw [ofLetters, ih known.2]
      obtain rfl | rfl | rfl | rfl := letter <;> simp [ofLetter?, union]

theorem parse_known {text : String} (known : ∀ c ∈ text.toList, c ∈ alphabet) :
    parse text = if text = "" then .error noLetters else .ok (ofText text) := by
  rw [parse, ofLetters_known known]
  simp only [String.isEmpty_iff]
  rfl

end Directives

open Directives

namespace Peeled

/-- The letters of the directives inside a target and a body. -/
def innerLetters (p : Peeled) : List String :=
  (p.target.toList ++ [p.body]).flatMap Expr.directiveLetters

theorem unionAll_known {d : Directives} {texts : List String}
    (known : ∀ text ∈ texts, ∀ c ∈ text.toList, c ∈ alphabet) :
    unionAll d texts
      = if "" ∈ texts then .error noLetters else .ok (d.union (ofTexts texts)) := by
  induction texts generalizing d with
  | nil => simp [unionAll, ofTexts]
  | cons text rest ih =>
      rw [List.forall_mem_cons] at known
      rw [unionAll, parse_known known.1]
      by_cases none : text = ""
      · simp [none, bind, Except.bind]
      · have other : "" ≠ text := fun same => none same.symm
        simp only [if_neg none, bind, Except.bind, ih known.2, List.mem_cons, other, false_or,
          union_assoc]
        rfl

/-- What is left of an argument after directives with the texts `taken` were taken off. -/
structure Left (arg : Expr) (taken : List String) (p : Peeled) : Prop where
  directives : p.directives = ofTexts taken
  lettered : "" ∉ taken
  letters : (taken ++ p.innerLetters).Perm arg.directiveLetters

end Peeled

namespace Expr

/-- Whether a directive on the right of an assignment collects. -/
def collectsOnRight : Expr → Bool
  | assign _ (directed letters _) => letters.toList.contains 't'
  | _ => false

theorem role_directed {letters : String} {inner : Expr}
    (known : ∀ c ∈ letters.toList, c ∈ alphabet) :
    (directed letters inner).role
      = if letters = "" then .error noLetters else .ok (.directed (ofText letters) inner) := by
  rw [role, parse_known known]
  split <;> rfl

end Expr

namespace Peeled

open TablePlan.Expr

variable {arg : Expr}

theorem ofTexts_singleton (text : String) : ofTexts [text] = ofText text :=
  union_empty _

/-- Taking the outermost directive off fails on a directive without letters, or takes the letters of
one directive and leaves all others. -/
inductive Opened (arg : Expr) : Prop
  | unlettered (fails : outer arg = .error noLetters) (inside : "" ∈ arg.directiveLetters)
  | left (p : Peeled) (taken : List String) (comes : outer arg = .ok p) (left : p.Left arg taken)

theorem opened_directed {letters : String} {inner : Expr}
    (known : ∀ text ∈ letters :: inner.directiveLetters, ∀ c ∈ text.toList, c ∈ alphabet) :
    Opened (directed letters inner) := by
  rw [List.forall_mem_cons] at known
  have all := directiveLetters_directed letters inner
  by_cases empty : letters = ""
  · refine .unlettered ?_ (all ▸ by simp [empty])
    simp only [outer, role_directed known.1, if_pos empty]
    rfl
  · have lettered : "" ∉ [letters] := by simpa using Ne.symm empty
    have played : (directed letters inner).role = .ok (.directed (ofText letters) inner) := by
      rw [role_directed known.1, if_neg empty]
    have whole : (⟨ofText letters, none, inner⟩ : Peeled).Left (directed letters inner) [letters] :=
      ⟨(ofTexts_singleton letters).symm, lettered, by simp [innerLetters, all]⟩
    cases inner with
    | directed letters' inner =>
        have known' := known.2 letters' (by simp [directiveLetters_directed])
        by_cases empty' : letters' = ""
        · refine .unlettered ?_ (by simp [directiveLetters_directed, empty'])
          simp only [outer, played, role_directed known', if_pos empty', bind, Except.bind]
        · refine .left _ [letters] ?_ whole
          simp only [outer, played, role_directed known', if_neg empty', bind, Except.bind]
          rfl
    | assign target value =>
        by_cases collects : (ofText letters).collect = true
        · refine .left _ [letters] ?_ whole
          simp only [outer, played]
          exact if_pos collects
        · refine .left ⟨ofText letters, some target, value⟩ [letters] ?_ ?_
          · simp only [outer, played]
            exact if_neg collects
          · refine ⟨(ofTexts_singleton letters).symm, lettered, ?_⟩
            rw [all, directiveLetters_of_undirected rfl]
            simp [innerLetters, children]
    | _ =>
        refine .left _ [letters] ?_ whole
        simp only [outer, played]
        rfl

theorem opened_assign {target value : Expr}
    (known : ∀ text ∈ value.directiveLetters, ∀ c ∈ text.toList, c ∈ alphabet)
    (placed : (assign target value).collectsOnRight = false) : Opened (assign target value) := by
  have all : (assign target value).directiveLetters
      = target.directiveLetters ++ value.directiveLetters := by
    rw [directiveLetters_of_undirected rfl]
    simp [children]
  have played : (assign target value).role = .ok (.assignment target value) := rfl
  cases value with
  | directed letters inner =>
      rw [directiveLetters_directed, List.forall_mem_cons] at known
      rw [directiveLetters_directed] at all
      by_cases empty : letters = ""
      · refine .unlettered ?_ (all ▸ by simp [empty])
        simp only [outer, played, role_directed known.1, if_pos empty, bind, Except.bind]
      · refine .left ⟨ofText letters, some target, inner⟩ [letters] ?_ ?_
        · have single : ¬ (ofText letters).collect = true := Bool.eq_false_iff.mp placed
          simp only [outer, played, role_directed known.1, if_neg empty, bind, Except.bind]
          exact if_neg single
        · refine ⟨(ofTexts_singleton letters).symm, by simpa using Ne.symm empty, ?_⟩
          rw [all]
          simpa [innerLetters] using List.perm_middle.symm
  | _ =>
      refine .left _ [] rfl ⟨rfl, List.not_mem_nil, ?_⟩
      simp [innerLetters, all]

theorem opened (known : ∀ text ∈ arg.directiveLetters, ∀ c ∈ text.toList, c ∈ alphabet)
    (placed : arg.collectsOnRight = false) : Opened arg := by
  cases arg with
  | directed letters inner => exact opened_directed (directiveLetters_directed letters inner ▸ known)
  | assign target value =>
      refine opened_assign (fun text inside => known text ?_) placed
      rw [directiveLetters_of_undirected rfl]
      simp [children, inside]
  | _ =>
      refine .left _ [] rfl ⟨rfl, List.not_mem_nil, ?_⟩
      simp [innerLetters]

/-- A conflict of all letters together is found in the directive that was taken off or in those that
are left inside. -/
theorem mode_of_conflict {p : Peeled} (default : Mode)
    (known : ∀ text ∈ p.innerLetters, ∀ c ∈ text.toList, c ∈ alphabet)
    (both : (p.directives.union (ofTexts p.innerLetters)).isConflicting) :
    (do p.refuseInner; p.directives.mode default : Except ArgumentError Mode)
      = .error (if "" ∈ p.innerLetters then noLetters
        else .conflictingDirective (p.directives.union (ofTexts p.innerLetters)).letters) := by
  simp only [refuseInner, ← innerLetters.eq_def]
  cases inside : p.innerLetters with
  | nil =>
      rw [inside] at both
      simp only [ofTexts, List.foldr_nil, union_empty, isConflicting, Bool.and_eq_true] at both ⊢
      simp only [mode, both.1, both.2]
      rfl
  | cons text rest =>
      rw [inside] at both known
      simp only [unionAll_known known]
      by_cases none : "" ∈ text :: rest
      · simp only [if_pos none]
        rfl
      · simp only [if_neg none, bind, Except.bind, both]
        rfl

end Peeled

namespace Expr

/-- An argument with directives of known letters only, of which some ask for row mode and some for
column mode. -/
structure AsksBothModes (arg : Expr) : Prop where
  known : ∀ text ∈ arg.directiveLetters, ∀ c ∈ text.toList, c ∈ alphabet
  row : ∃ text ∈ arg.directiveLetters, 'r' ∈ text.toList
  column : ∃ text ∈ arg.directiveLetters, 'c' ∈ text.toList

/-- Why an argument that asks for both modes is refused. -/
def modesRefusal (arg : Expr) : ArgumentError :=
  match arg with
  | assign target (directed letters inner) =>
    if letters.toList.contains 't' then
      .invalidDirectiveTarget "t" inner.text ("the assignment target " ++ target.text
        ++ " already names the sink; @t must wrap the whole argument")
    else conflict arg
  | arg => conflict arg
where
  conflict (arg : Expr) : ArgumentError :=
    if "" ∈ arg.directiveLetters then noLetters
    else .conflictingDirective (ofTexts arg.directiveLetters).letters

theorem modesRefusal_of_placed {arg : Expr} (placed : arg.collectsOnRight = false) :
    arg.modesRefusal = modesRefusal.conflict arg := by
  unfold modesRefusal
  split
  · exact if_neg (Bool.eq_false_iff.mp placed)
  · rfl

end Expr

namespace ArgumentPlan

variable {σ : Type} {registry : Registry σ} {kind : Kind} {index : Nat} {arg : Expr}

theorem ofArgument_of_outer {e : ArgumentError} (fails : Peeled.outer arg = .error e) :
    ofArgument registry kind index arg = .error e := by
  simp only [ofArgument, Peeled.ofArgument, fails]
  rfl

theorem ofArgument_of_mode {p : Peeled} {e : ArgumentError} (comes : Peeled.outer arg = .ok p)
    (fails : (do p.refuseInner; p.directives.mode kind.defaultMode : Except _ Mode) = .error e) :
    ofArgument registry kind index arg = .error e := by
  simp only [ofArgument, Peeled.ofArgument, comes]
  cases refused : p.refuseInner with
  | error e' =>
      rw [refused] at fails
      cases fails
      simp only [refused, bind, Except.bind]
  | ok =>
      rw [refused] at fails
      have fails : p.directives.mode kind.defaultMode = .error e := fails
      simp only [refused, bind, Except.bind, pure, Except.pure, fails]

/-- A directive that collects, on the right of an assignment, is refused first. -/
theorem outer_of_collectsOnRight (known : ∀ text ∈ arg.directiveLetters, ∀ c ∈ text.toList,
      c ∈ alphabet) (collects : arg.collectsOnRight = true) :
    Peeled.outer arg = .error arg.modesRefusal := by
  unfold Expr.collectsOnRight at collects
  split at collects
  · rename_i target letters inner
    have collect : (ofText letters).collect = true := collects
    have own : letters ∈ (Expr.assign target (.directed letters inner)).directiveLetters := by
      rw [Expr.directiveLetters_of_undirected rfl]
      simp [Expr.children, Expr.directiveLetters_directed]
    have lettered : letters ≠ "" := by
      rintro rfl
      cases collects
    have played : (Expr.assign target (.directed letters inner)).role
        = .ok (.assignment target (.directed letters inner)) := rfl
    simp only [Peeled.outer, played, Expr.role_directed (known letters own), if_neg lettered, bind,
      Except.bind, if_pos collect, Expr.modesRefusal, if_pos collects]
    rfl
  · cases collects

/-- An argument whose directives ask for both modes is refused, wherever they stand: for the conflict
unless a directive has no letters, or one that collects stands on the right of an assignment. -/
theorem both_modes_refused (h : arg.AsksBothModes) :
    ofArgument registry kind index arg = .error arg.modesRefusal := by
  cases placed : arg.collectsOnRight with
  | true => exact ofArgument_of_outer (outer_of_collectsOnRight h.known placed)
  | false =>
      rw [Expr.modesRefusal_of_placed placed, Expr.modesRefusal.conflict]
      cases Peeled.opened h.known placed with
      | unlettered fails inside =>
          rw [if_pos inside]
          exact ofArgument_of_outer fails
      | left p taken comes left =>
          have all : p.directives.union (ofTexts p.innerLetters) = ofTexts arg.directiveLetters := by
            rw [left.directives, ← ofTexts_append, ofTexts_perm left.letters]
          have unlettered : "" ∈ p.innerLetters ↔ "" ∈ arg.directiveLetters := by
            rw [← left.letters.mem_iff, List.mem_append, or_iff_right left.lettered]
          have known (text : String) (inside : text ∈ p.innerLetters) :=
            h.known text (left.letters.subset (List.mem_append_right taken inside))
          have both : (ofTexts arg.directiveLetters).isConflicting = true := by
            rw [isConflicting, ofTexts_eq]
            simpa using ⟨h.row, h.column⟩
          refine ofArgument_of_mode comes ?_
          rw [Peeled.mode_of_conflict _ known (by rw [all, both]), all]
          simp only [unlettered]

/-- The two modes of `@r :z = @c :x` conflict, and so do those of `:y = @rct :x`, which is refused for
its last letter. -/
theorem split_modes_refused :
    ofArgument (Registry.empty (σ := Unit) "1") .transform 0 (.directed "r"
      (.assign (.column (.name "z")) (.directed "c" (.column (.name "x")))))
      = .error (.conflictingDirective "rc")
    ∧ ofArgument (Registry.empty (σ := Unit) "1") .transform 0
      (.assign (.column (.name "y")) (.directed "rct" (.column (.name "x"))))
      = .error (.invalidDirectiveTarget "t" ":x"
        "the assignment target :y already names the sink; @t must wrap the whole argument") := by
  constructor
  · have asks : (Expr.directed "r" (.assign (.column (.name "z"))
        (.directed "c" (.column (.name "x"))))).AsksBothModes :=
      ⟨by decide, by decide, by decide⟩
    exact (both_modes_refused asks).trans rfl
  · have asks : (Expr.assign (.column (.name "y"))
        (.directed "rct" (.column (.name "x")))).AsksBothModes := ⟨by decide, by decide, by decide⟩
    exact (both_modes_refused asks).trans rfl

end ArgumentPlan

end TablePlan
