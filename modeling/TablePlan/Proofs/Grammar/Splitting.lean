import TablePlan.Proofs.Grammar.Stranding
import TablePlan.Grammar.Call

/-!
# Splitting arguments

Texts that are arguments on their own are the arguments of a call when they are joined by commas on
new lines, unless an assignment of a directed value comes before another assignment: a directive
takes every target up to the next equals sign for its own.
-/

namespace TablePlan

namespace Expr

/-- Whether this is an assignment. -/
def IsAssignment : Expr → Prop
  | assign _ _ => True
  | _ => False

/-- Whether this is an assignment of a value with a directive. -/
def AssignsDirected : Expr → Prop
  | assign _ (directed _ _) => True
  | _ => False

end Expr

namespace Grammar

open Reader

/-- A text that is an argument on its own and begins with no directive. -/
structure Alone (cs : List Char) (e : Expr) : Prop where
  clear : Clear cs
  undirected : directive? (skipBlank false cs) = none
  read : ∃ rest, argument (nested (cs.length + 1)) ⟨cs, none⟩ = some (e, ⟨rest, none⟩)
    ∧ skipBlank false rest = []

section

variable {cs : List Char} {e : Expr}

theorem Alone.directed_refuses (h : Alone cs e) (depth : Nat) :
    (nested depth).directed.Refuses cs := by
  cases depth with
  | zero => exact refuses_failure cs
  | succ depth => exact (token_refuses rfl h.undirected).bind

/-- An argument is an expression up to its end, or a target, an equals sign and a value. -/
theorem Alone.shape (h : Alone cs e) : ∃ first c rest,
    (nested (cs.length + 1)).expr ⟨cs, none⟩ = some (first, c) ∧ skipBlank false rest = []
      ∧ ((c = ⟨rest, none⟩ ∧ e = first)
        ∨ ∃ c' value, equals c = some ((), c')
          ∧ assigned (nested (cs.length + 1)) c' = some (value, ⟨rest, none⟩)
          ∧ e = .assign first value) := by
  obtain ⟨rest, read, blank⟩ := h.read
  rw [argument, orElse_none (h.directed_refuses _ none)] at read
  cases first : (nested (cs.length + 1)).expr ⟨cs, none⟩ with
  | none =>
      have none : assignment (nested (cs.length + 1)) ⟨cs, none⟩ = none := bind_none first
      rw [orElse_none none, first] at read
      cases read
  | some found =>
      obtain ⟨target, c⟩ := found
      refine ⟨target, c, rest, rfl, blank, ?_⟩
      cases assigns : assignment (nested (cs.length + 1)) ⟨cs, none⟩ with
      | none =>
          rw [orElse_none assigns, first] at read
          cases read
          exact .inl ⟨rfl, rfl⟩
      | some found =>
          rw [orElse_some assigns] at read
          cases read
          rw [assignment, bind_some first] at assigns
          obtain ⟨⟨_, c'⟩, mark, assigns⟩ := Option.bind_eq_some_iff.mp assigns
          obtain ⟨⟨value, c''⟩, value', assigns⟩ := Option.bind_eq_some_iff.mp assigns
          cases assigns
          exact .inr ⟨c', value, mark, value', rfl⟩

/-- No argument begins with a name and three dots. -/
theorem Alone.no_splat (h : Alone cs e) : token splat? ⟨cs, none⟩ = none := by
  obtain ⟨first, c, rest, read, blank, outcome⟩ := h.shape
  cases splat : token splat? ⟨cs, none⟩ with
  | none => rfl
  | some found =>
      obtain ⟨⟨name, after⟩, found, -⟩ := Option.map_eq_some_iff.mp splat
      cases start : skipBlank false cs with
      | nil =>
          rw [start] at found
          cases found
      | cons d t =>
          obtain ⟨p, is, -⟩ := exists_blank start
          rw [start] at found
          have apart := h.clear.splat ⟨p, is.symm⟩ found
          obtain ⟨whole, plain, free⟩ := splat?_some found
          rw [whole] at start
          have named := expr_name_dots cs.length start ⟨plain, free, apart⟩ none
          rw [read] at named
          cases named
          obtain ⟨same, -⟩ | ⟨c', value, mark, -⟩ := outcome
          · cases same
            cases blank
          · have no : equals.Refuses ('.' :: '.' :: '.' :: after) :=
              Hung.equals_refuses (.inr (.inr ⟨after, rfl⟩))
            rw [no none] at mark
            cases mark

theorem Alone.item_eq (h : Alone cs e) :
    tupleItem (nested (cs.length + 1)) ⟨cs, none⟩ = (nested (cs.length + 1)).expr ⟨cs, none⟩ :=
  orElse_none ((congrFun (map_eq_pure_bind _ _) _).trans (bind_none h.no_splat))

end

/-! ### More arguments -/

/-- Arguments that come after another one. -/
def following (texts : List (List Char)) : List Char :=
  texts.flatMap fun text => '\n' :: ',' :: text

@[simp] theorem following_nil : following [] = [] := rfl

theorem following_cons (text : List Char) (texts : List (List Char)) :
    following (text :: texts) = '\n' :: ',' :: (text ++ following texts) := rfl

/-- The text that arguments are in after a fault. -/
def among (texts : List (List Char)) (earlier : Option Fault) : Context :=
  ⟨following texts, earlier⟩

theorem among_continues (texts : List (List Char)) (earlier : Option Fault) :
    (among texts earlier).Continues := by
  cases texts with
  | nil => exact .inl rfl
  | cons text texts => exact .inr ⟨_, rfl⟩

section

variable {texts : List (List Char)} {P Q : Prop} {cs : List Char} {e : Expr} {depth : Nat}
  {item item' : Reader Expr}

/-- A comma on a new line is read with what comes after it. -/
theorem afterComma_following {α : Type} (x : Reader α) {rest : List Char} (fault : Option Fault)
    (blank : skipBlank false rest = []) : afterComma x ⟨rest ++ following (cs :: texts), fault⟩
      = x ⟨cs ++ following texts, fault⟩ := by
  have comma : (sign ",").Reads (rest ++ following (cs :: texts)) () (cs ++ following texts) :=
    sign_reads (by rw [following_cons, skipBlank_newline blank]; rfl)
  exact bind_some (comma fault)

/-- Items go on through one more argument. -/
theorem runsOn_cons (h : Alone cs e) (read : ∀ earlier, (nested (cs.length + 1)).Carries P
      (among texts earlier) (cs.length + 1) (nested depth))
    (steady : ∀ earlier, Steady (among texts earlier) (cs.length + 1) 1 item item')
    (same : item ⟨cs, none⟩ = (nested (cs.length + 1)).expr ⟨cs, none⟩)
    (more : P → Q) (assigns : e.IsAssignment → Q)
    (later : RunsOn (TargetsEnd P (nested depth)) (following texts) item') :
    RunsOn (TargetsEnd Q (nested depth)) (following (cs :: texts)) item' := by
  intro start fault blank
  obtain ⟨first, c, rest, expr, rest_blank, outcome⟩ := h.shape
  have short : (⟨cs, none⟩ : Cursor).rest.length < cs.length + 1 := Nat.lt_succ_self _
  have alone : item ⟨cs, none⟩ = some (first, c) := same.trans expr
  have goes := among_continues texts fault
  obtain ⟨clear, shorter⟩ := (steady fault).takes.left alone h.clear
  have found : afterComma item' ⟨start ++ following (cs :: texts), fault⟩
      = some (first, c.before (among texts fault)) := by
    rw [afterComma_following item' fault blank]
    have agree := ((steady fault).agree h.clear short).reads alone
    rwa [Cursor.before, Option.or_none] at agree
  have takes : (c.before (among texts fault)).rest.length
      < (start ++ following (cs :: texts)).length := by
    simp only [Cursor.before, among, following_cons, List.length_append, List.length_cons]
      at shorter ⊢
    omega
  obtain ⟨rfl, -⟩ | ⟨c', value, mark, assigned, rfl⟩ := outcome
  · obtain ⟨as, c', loop, ends⟩ := later rest _ rest_blank
    exact ⟨first :: as, c', .next found takes loop,
      ends.imp_right (And.imp_left more)⟩
  · have mark' := ((steady_equals goes (n := cs.length + 1)).agree clear (by omega)).reads mark
    obtain ⟨t, sign⟩ := equals_some mark
    have sign' : skipBlank false (c.before (among texts fault)).rest
        = '=' :: (t ++ following texts) := skipBlank_append sign (following texts)
    have stop : afterComma item' (c.before (among texts fault)) = none :=
      (sign_refuses_of_head sign' (by decide) (by decide)).bind _
    refine ⟨[first], _, .next found takes (.stop stop),
      .inr ⟨assigns trivial, ⟨_, sign'⟩, fun v c₂ read' => ?_⟩⟩
    rw [bind_some mark'] at read'
    obtain ⟨clear', shorter'⟩ := (steady_equals goes (n := cs.length + 1)).takes.left mark clear
    obtain agree | ⟨_, _, _, _, _, _, strands, dead⟩ :=
      (carries_value (read fault)).same c' clear' (by omega)
    · cases (agree.reads assigned).symm.trans read'
      exact (Hung.before goes (.inl rest_blank)).dead
    · cases strands.symm.trans read'
      exact dead.2

end

/-- Whether one of several arguments is an assignment. -/
def SomeAssignment (args : List Expr) : Prop :=
  ∃ arg ∈ args, arg.IsAssignment

/-- How expressions and targets go on through several arguments. -/
theorem tail_following {texts : List (List Char)} {args : List Expr}
    (alone : List.Forall₂ Alone texts args) (depth : Nat)
    (deep : (following texts).length ≤ depth) :
    Tail (SomeAssignment args) (following texts) (nested depth) := by
  induction alone generalizing depth with
  | nil => exact tail_nil _ _
  | @cons cs e texts args h others ih =>
      have deep' : cs.length + 1 + (following texts).length ≤ depth := by
        rw [following_cons, List.length_cons, List.length_cons, List.length_append] at deep
        omega
      have read (earlier : Option Fault) :=
        nested_carries (among_continues texts earlier) ih (cs.length + 1) depth deep'
      have more : SomeAssignment args → SomeAssignment (e :: args) :=
        fun ⟨arg, inside, assigns⟩ => ⟨arg, List.mem_cons_of_mem _ inside, assigns⟩
      have first : e.IsAssignment → SomeAssignment (e :: args) :=
        fun assigns => ⟨e, List.mem_cons_self, assigns⟩
      have later := ih depth (by omega)
      exact ⟨runsOn_cons h read (fun earlier => (read earlier).expr) rfl more first later.exprs,
        runsOn_cons h read (fun earlier => steady_tupleItem (among_continues texts earlier)
          (read earlier)) h.item_eq more first later.items⟩

theorem directed_value {depth : Nat} {c c' : Cursor} {value : Expr}
    (read : (nested depth).directed c = some (value, c')) :
    ∃ letters e, value = .directed letters e := by
  cases depth with
  | zero => cases read
  | succ depth =>
      obtain ⟨⟨letters, c₁⟩, -, read⟩ := Option.bind_eq_some_iff.mp read
      obtain ⟨⟨e, c₂⟩, -, read⟩ := Option.bind_eq_some_iff.mp read
      cases read
      exact ⟨letters, e, rfl⟩

/-- A value that is read alone strands only if it begins with a directive. -/
theorem assigned_agrees {P : Prop} {E : Context} {d d' : Nat} {c c' : Cursor} {value : Expr}
    (h : (nested d).Carries P E d (nested d')) (clear : Clear c.rest) (short : c.rest.length < d)
    (read : assigned (nested d) c = some (value, c'))
    (apart : ∀ letters e, value = .directed letters e → ¬ P) :
    Agree E (assigned (nested d)) (assigned (nested d')) c := by
  obtain agree | strands := (carries_value h).same c clear short
  · exact agree
  · obtain ⟨_, _, _, _, _, dead, _⟩ := strands
    have none : (nested d).directed c = none := by
      cases directive : (nested d).directed c with
      | none => rfl
      | some found =>
          obtain ⟨letters, e, is⟩ := directed_value directive
          cases (orElse_some directive).symm.trans read
          exact absurd dead.1 (apart letters e is)
    have agree : Agree E (nested d).directed (nested d').directed c := by
      obtain agree | ⟨_, _, _, _, left, -⟩ := h.directed.same c clear short
      · exact agree
      · rw [none] at left
        cases left
    exact agree.or (h.expr.agree clear short)

/-- An argument is read before others as it is alone, unless it assigns a directed value and one of
the others is an assignment. -/
theorem Alone.argument_reads {texts : List (List Char)} {args : List Expr} {cs : List Char}
    {e : Expr} {depth : Nat} (h : Alone cs e) (others : List.Forall₂ Alone texts args)
    (apart : e.AssignsDirected → ¬ SomeAssignment args)
    (deep : cs.length + 1 + (following texts).length ≤ depth) :
    ∃ rest, skipBlank false rest = [] ∧ rest.length ≤ cs.length
      ∧ argument (nested depth) ⟨cs ++ following texts, none⟩
        = some (e, ⟨rest ++ following texts, none⟩) := by
  have goes := among_continues texts none
  have read := nested_carries goes (tail_following others) (cs.length + 1) depth deep
  have short : (⟨cs, none⟩ : Cursor).rest.length < cs.length + 1 := Nat.lt_succ_self _
  obtain ⟨first, c, rest, expr, blank, outcome⟩ := h.shape
  have expr' := (read.expr.agree h.clear short).reads expr
  obtain ⟨clear, shorter⟩ := read.expr.takes.left expr h.clear
  have undirected : (nested depth).directed ⟨cs ++ following texts, none⟩ = none := by
    have no := h.directed_refuses (cs.length + 1) none
    obtain agree | ⟨_, _, _, _, left, -⟩ := read.directed.same ⟨cs, none⟩ h.clear short
    · exact agree.refuses no
    · rw [no] at left
      cases left
  refine ⟨rest, blank, ?_⟩
  rw [argument, orElse_none undirected]
  obtain ⟨rfl, rfl⟩ | ⟨c', value, mark, assigned, rfl⟩ := outcome
  · have ends : Hung (rest ++ following texts) := Hung.before goes (.inl blank)
    have less : rest.length + 1 ≤ cs.length := shorter
    refine ⟨by omega, (orElse_none ?_).trans expr'⟩
    exact (bind_some expr').trans (bind_none (ends.equals_refuses _))
  · have mark' := ((steady_equals goes (n := cs.length + 1)).agree clear (by omega)).reads mark
    obtain ⟨clear', shorter'⟩ := (steady_equals goes (n := cs.length + 1)).takes.left mark clear
    obtain ⟨-, shorter''⟩ := (carries_value read).takes.left assigned clear'
    have agree := assigned_agrees read clear' (by omega) assigned fun letters e is =>
      apart (by rw [is]; trivial)
    have less : rest.length + 1 ≤ c'.rest.length := shorter''
    have whole : c.rest.length + 1 ≤ cs.length := shorter
    refine ⟨by omega, orElse_some ?_⟩
    exact (bind_some expr').trans ((bind_some mark').trans (bind_some (agree.reads assigned)))

/-- Arguments after commas on new lines are read one after another. -/
theorem arguments_loop {texts : List (List Char)} {args : List Expr} {depth : Nat}
    (alone : List.Forall₂ Alone texts args)
    (apart : args.Pairwise fun arg later => arg.AssignsDirected → ¬ later.IsAssignment)
    (deep : (following texts).length ≤ depth) (before : List Char)
    (blank : skipBlank false before = []) : ∃ rest, skipBlank false rest = []
      ∧ Loop (afterComma (argument (nested depth))) ⟨before ++ following texts, none⟩ args
        ⟨rest, none⟩ := by
  induction alone generalizing before with
  | nil =>
      rw [following_nil, List.append_nil]
      exact ⟨before, blank, .stop ((sign_refuses_blank (by decide) blank).bind none)⟩
  | @cons cs e texts args h others ih =>
      rw [following_cons, List.length_cons, List.length_cons, List.length_append] at deep
      obtain ⟨first, later⟩ := List.pairwise_cons.mp apart
      have enough : cs.length + 1 + (following texts).length ≤ depth := by omega
      obtain ⟨rest, rest_blank, short, read⟩ := h.argument_reads others
        (fun directed ⟨arg, inside, assigns⟩ => first arg inside directed assigns) enough
      obtain ⟨last, last_blank, loop⟩ := ih later (by omega) rest rest_blank
      refine ⟨last, last_blank, .next ?_ ?_ loop⟩
      · rw [afterComma_following _ none blank, read]
      · simp only [following_cons, List.length_append, List.length_cons]
        omega

theorem toList_joinWith (text : String) (texts : List String) :
    (Text.joinWith "\n," (text :: texts)).toList
      = text.toList ++ following (texts.map String.toList) := by
  induction texts generalizing text with
  | nil => simp
  | cons next texts ih =>
      rw [Text.joinWith_cons_cons, String.toList_append, ih, List.map_cons, following_cons]
      simp

/-- What a text is read as, with nothing but blank space after it. -/
theorem readAll_iff {α : Type} {reader : Nested → Reader α} {text : String} {a : α} :
    readAll reader text = .ok a ↔ ∃ rest, skipBlank false rest = []
      ∧ reader (nested (text.toList.length + 1)) ⟨text.toList, none⟩ = some (a, ⟨rest, none⟩) := by
  unfold readAll
  dsimp only
  cases read : reader (nested (text.toList.length + 1)) ⟨text.toList, none⟩ with
  | none =>
      rw [bind_none read]
      simp
  | some found =>
      obtain ⟨b, rest, fault⟩ := found
      rw [bind_some read]
      cases blank : skipBlank false rest with
      | nil =>
          have finished : endOfText ⟨rest, fault⟩ = some ((), ⟨[], fault⟩) :=
            token_reads blank rfl fault
          rw [bind_some finished]
          cases fault with
          | none =>
              change Except.ok b = .ok a ↔ _
              constructor
              · rintro ⟨⟩
                exact ⟨rest, blank, rfl⟩
              · rintro ⟨_, _, ⟨⟩⟩
                rfl
          | some fault =>
              change Except.error _ = .ok a ↔ _
              constructor
              · rintro ⟨⟩
              · rintro ⟨_, _, ⟨⟩⟩
      | cons c t =>
          have unfinished : endOfText ⟨rest, fault⟩ = none := token_refuses blank rfl fault
          rw [bind_none unfinished]
          refine ⟨fun same => (by cases same), ?_⟩
          rintro ⟨_, empty, ⟨⟩⟩
          rw [blank] at empty
          cases empty

theorem alone_of_read {text : String} {e : Expr} (read : Expr.read text = .ok e)
    (undirected : directive? (skipBlank false text.toList) = none)
    (splats : SplatsApart text.toList) : Alone text.toList e := by
  obtain ⟨rest, blank, read⟩ := readAll_iff.mp read
  refine ⟨⟨?_, splats⟩, undirected, rest, read, blank⟩
  have h := nested_takes (text.toList.length + 1)
  have takes : (argument (nested (text.toList.length + 1))).Takes 1 :=
    h.directed.takes.orElse ((carries_assignment (.inl rfl) h).takes.orElse h.expr.takes)
  obtain ⟨p, is, whole, -⟩ := takes _ _ _ read
  change text.toList = p ++ rest at is
  rw [is, whole.settled_append]
  exact settled_of_blank blank

end Grammar

open Grammar Reader in
/-- Texts that are read alone and do not begin with a directive are read as the arguments of a call
when they are joined by commas on new lines, each as it is alone. No assignment comes after one of a
directed value, and no name before three dots begins like a block. -/
theorem Arguments.read_joined {texts : List String} {args : List Expr}
    (alone : List.Forall₂ (fun text arg => Expr.read text = .ok arg) texts args)
    (undirected : ∀ text ∈ texts, directive? (skipBlank false text.toList) = none)
    (splats : ∀ text ∈ texts, SplatsApart text.toList)
    (apart : args.Pairwise fun arg later => arg.AssignsDirected → ¬ later.IsAssignment) :
    Arguments.read (Text.joinWith "\n," texts) = .ok ⟨args, []⟩ := by
  have separate : List.Forall₂ Alone (texts.map String.toList) args := by
    induction alone with
    | nil => exact .nil
    | cons read _ ih =>
        rw [List.forall_mem_cons] at undirected splats
        exact .cons (alone_of_read read undirected.1 splats.1)
          (ih undirected.2 splats.2 (List.pairwise_cons.mp apart).2)
  refine readAll_iff.mpr ?_
  generalize whole : Text.joinWith "\n," texts = text
  suffices found : ∃ read rest, skipBlank false rest = []
      ∧ optional (commaList (argument (nested (text.toList.length + 1)))) ⟨text.toList, none⟩
        = some (read, ⟨rest, none⟩) ∧ read.getD [] = args by
    obtain ⟨read, rest, blank, positional, rfl⟩ := found
    refine ⟨rest, blank, (bind_some positional).trans ?_⟩
    have none : (do sign ";"; optional (commaList (namedOption (nested (text.toList.length + 1)))))
        ⟨rest, none⟩ = none := (sign_refuses_blank (by decide) blank).bind _
    exact bind_some (optional_none none)
  cases texts with
  | nil =>
      cases separate
      subst whole
      have dead : Dead [] := .nothing
      have refuses : (argument (nested 1)).Refuses [] :=
        (dead.directed_refuses 1).or ((dead.expr_refuses 1).bind.or (dead.expr_refuses 1))
      exact ⟨none, [], rfl, optional_none (refuses.bind.bind none), rfl⟩
  | cons first texts =>
      cases separate with
      | @cons _ arg _ args h others =>
          have chars : text.toList = first.toList ++ following (texts.map String.toList) := by
            rw [← whole, toList_joinWith]
          have enough : first.toList.length + 1 + (following (texts.map String.toList)).length
              ≤ text.toList.length + 1 := by
            rw [chars, List.length_append]
            omega
          obtain ⟨before, later⟩ := List.pairwise_cons.mp apart
          obtain ⟨rest, blank, -, read⟩ := h.argument_reads others
            (fun directed ⟨arg, inside, assigns⟩ => before arg inside directed assigns) enough
          obtain ⟨last, last_blank, loop⟩ :=
            arguments_loop others later (by omega : _ ≤ text.toList.length + 1) rest blank
          have items := commaItems_some read loop
          rw [← chars] at items
          have comma : optional (sign ",") ⟨last, none⟩ = some (none, ⟨last, none⟩) :=
            optional_none (sign_refuses_blank (by decide) last_blank none)
          exact ⟨some (arg :: args), last, last_blank,
            optional_some ((bind_some items).trans (bind_some comma)), rfl⟩

/-- A directive on the right-hand side of the last assignment. -/
theorem Arguments.read_two_assignments :
    Arguments.read (Text.joinWith "\n," [":z = 1", ":y = @c :x"])
      = .ok ⟨[.assign (.column (.name "z")) (.literal (.int 1)),
        .assign (.column (.name "y")) (.directed "c" (.column (.name "x")))], []⟩ :=
  Arguments.read_joined (.cons rfl (.cons rfl .nil)) (by decide) (by decide)
    (by simp [Expr.AssignsDirected, Expr.IsAssignment])

end TablePlan
