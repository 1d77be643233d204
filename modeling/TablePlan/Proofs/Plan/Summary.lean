import TablePlan.Plan.Pipeline
import TablePlan.Proofs.Json.Numbers

/-!
# Summaries with the same text

The text of a summary determines all of it, its options up to numbers that are written alike. So
equal texts come from calls of one kind with the same triples, each function being known by its
parameters, its mode and the text of its body. Only numbers that are not finite are written alike:
without them the summary itself is known from its text, and from the bytes that are digested.
-/

namespace TablePlan

open Json

theorem Json.Alike.eq_of_strings {items items' : List String}
    (h : Alike (strings items) (strings items')) : items = items' :=
  eq_of_array (fun _ _ => eq_of_string) h

theorem FunctionSummary.eq_of_alike {f f' : FunctionSummary} (h : Alike f.toJson f'.toJson) :
    f = f' := by
  obtain ⟨-, parts⟩ := h.members
  obtain ⟨params, body, mode, passMissing⟩ := f
  obtain ⟨params', body', mode', passMissing'⟩ := f'
  simp only [List.map_cons, List.map_nil, List.forall₂_cons] at parts
  obtain ⟨sameParams, sameBody, sameMode, sameMissing, -⟩ := parts
  have modes := congrArg Mode.ofName? sameMode.eq_of_string
  simp only [Mode.ofName?_name, Option.some.injEq] at modes
  rw [sameParams.eq_of_strings, sameBody.eq_of_string, modes, sameMissing.eq_of_bool]

theorem Sink.eq_of_alike {sink sink' : Sink} (h : Alike sink.toJson sink'.toJson) :
    sink = sink' := by
  cases sink <;> cases sink' <;> obtain ⟨names, parts⟩ := Alike.members h
  case column.column name name' =>
    simp only [List.map_cons, List.map_nil, List.forall₂_cons] at parts
    rw [parts.2.1.eq_of_string]
  case expandRecord.expandRecord => rfl
  all_goals exact absurd names (by simp)

theorem TripleSummary.eq_of_alike {t t' : TripleSummary} (h : Alike t.toJson t'.toJson) :
    t = t' := by
  obtain ⟨-, parts⟩ := h.members
  obtain ⟨argument, sources, function, sink⟩ := t
  obtain ⟨argument', sources', function', sink'⟩ := t'
  simp only [List.map_cons, List.map_nil, List.forall₂_cons] at parts
  obtain ⟨sameArgument, sameSources, sameFunction, sameSink, -⟩ := parts
  rw [Int.ofNat_inj.mp sameArgument.eq_of_int, sameSources.eq_of_strings,
    FunctionSummary.eq_of_alike sameFunction, Sink.eq_of_alike sameSink]

namespace Summary

/-- Options of the same names with documents that differ in numbers written alike at most. -/
def AlikeOptions (options options' : List (String × Json)) : Prop :=
  List.Forall₂ (fun o o' => o.1 = o'.1 ∧ Alike o.2 o'.2) options options'

theorem alike_options {options options' : List (String × Json)}
    (h : Alike (optionsJson options) (optionsJson options')) : AlikeOptions options options' := by
  have pairs := List.forall₂_map_left_iff.mp (List.forall₂_map_right_iff.mp h.items)
  refine pairs.imp fun o o' pair => ?_
  have parts := pair.items
  simp only [List.forall₂_cons] at parts
  exact ⟨parts.1.eq_of_string, parts.2.1⟩

theorem AlikeOptions.eq_of_finite {options options' : List (String × Json)}
    (alike : AlikeOptions options options') (finite : ∀ o ∈ options, o.2.Finite)
    (finite' : ∀ o ∈ options', o.2.Finite) : options = options' := by
  induction alike with
  | nil => rfl
  | cons first _ ih =>
      rw [List.forall_mem_cons] at finite finite'
      rw [ih finite.2 finite'.2, Prod.ext first.1 (eq_of_alike finite.1 finite'.1 first.2)]

/-- Summaries with the same text are of one kind, with like options and the same triples. -/
theorem eq_of_text {s s' : Summary} (same : s.text = s'.text) :
    s.kind = s'.kind ∧ s.operation = s'.operation ∧ AlikeOptions s.options s'.options
      ∧ s.triples = s'.triples := by
  obtain ⟨names, parts⟩ := (alike_of_text same).members
  obtain ⟨kind, operation, options, triples⟩ := s
  obtain ⟨kind', operation', options', triples'⟩ := s'
  have triplesOf (h : Alike (.array (triples.map TripleSummary.toJson))
      (.array (triples'.map TripleSummary.toJson))) : triples = triples' :=
    Alike.eq_of_array (fun _ _ => TripleSummary.eq_of_alike) h
  have kinds (h : Alike (.string kind.name) (.string kind'.name)) : kind = kind' := by
    have names := congrArg Kind.ofName? h.eq_of_string
    simpa using names
  have operations (h : Alike (.string operation.name) (.string operation'.name)) :
      operation = operation' := by
    have names := congrArg Operation.ofName? h.eq_of_string
    simpa using names
  -- The options are left out when there are none, so the names of the members tell which is so.
  cases options <;> cases options' <;>
    simp only [List.isEmpty_nil, List.isEmpty_cons, if_true, Bool.false_eq_true, if_false,
      List.cons_append, List.nil_append, List.map_cons, List.map_nil, List.forall₂_cons] at names parts
  case nil.nil =>
    obtain ⟨sameKind, sameOperation, sameTriples, -⟩ := parts
    exact ⟨kinds sameKind, operations sameOperation, .nil, triplesOf sameTriples⟩
  case cons.cons =>
    obtain ⟨sameKind, sameOperation, sameOptions, sameTriples, -⟩ := parts
    exact ⟨kinds sameKind, operations sameOperation, alike_options sameOptions,
      triplesOf sameTriples⟩
  all_goals exact absurd names (by decide)

/-- Options that a text can show. -/
def FiniteOptions (s : Summary) : Prop :=
  ∀ o ∈ s.options, o.2.Finite

/-- Summaries with finite numbers in their options are told apart by their texts, and by the bytes
that their fingerprints are taken of. -/
theorem distinct_messages {s s' : Summary} (finite : s.FiniteOptions) (finite' : s'.FiniteOptions) :
    (s.text = s'.text → s = s') ∧ (s ≠ s' → s.text.toUTF8.toList ≠ s'.text.toUTF8.toList) := by
  have texts (same : s.text = s'.text) : s = s' := by
    obtain ⟨kinds, operations, options, triples⟩ := eq_of_text same
    obtain ⟨kind, operation, options, triples⟩ := s
    obtain ⟨kind', operation', options', triples'⟩ := s'
    have sameOptions := options.eq_of_finite finite finite'
    simp_all
  exact ⟨texts, fun distinct bytes => distinct (texts (Text.eq_of_bytes bytes))⟩

/-- The number one with and without a fraction. -/
theorem whole_and_fraction_apart :
    let summary (one : Json) : Summary := ⟨.transform, .newTable, [("k", one)], []⟩
    (summary (.int 1)).FiniteOptions ∧ (summary (.float 1)).FiniteOptions
      ∧ (summary (.int 1)).text.toUTF8.toList ≠ (summary (.float 1)).text.toUTF8.toList := by
  intro summary
  have whole : (summary (.int 1)).FiniteOptions := List.forall_mem_singleton.mpr (.int trivial)
  have fraction : (summary (.float 1)).FiniteOptions :=
    List.forall_mem_singleton.mpr (.float (by decide))
  exact ⟨whole, fraction, (distinct_messages whole fraction).2 (by simp [summary])⟩

end Summary

end TablePlan
