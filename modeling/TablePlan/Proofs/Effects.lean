import Mathlib.Data.List.Forall2

/-!
# What computations with effects come from

A sequence that comes to a value does so through values of its parts. A traversal comes to the
values of the elements, in order.
-/

namespace TablePlan

variable {σ α β ε : Type}

/-! ### Sequences -/

theorem ok_of_bind {x : Except ε α} {f : α → Except ε β} {b : β} (h : (x >>= f) = .ok b) :
    ∃ a, x = .ok a ∧ f a = .ok b := by
  cases x with
  | error e => cases h
  | ok a => exact ⟨a, rfl, h⟩

/-- Where the error of a sequence comes from. -/
theorem error_of_bind {x : Except ε α} {f : α → Except ε β} {e : ε} (h : (x >>= f) = .error e) :
    x = .error e ∨ ∃ a, x = .ok a ∧ f a = .error e := by
  cases x with
  | error cause =>
      cases h
      exact Or.inl rfl
  | ok a => exact Or.inr ⟨a, rfl, h⟩

theorem ok_of_mapError {ε' : Type} {g : ε → ε'} {x : Except ε α} {a : α}
    (h : x.mapError g = .ok a) : x = .ok a := by
  cases x with
  | error e => cases h
  | ok b =>
      cases h
      rfl

theorem error_of_mapError {ε' : Type} {g : ε → ε'} {x : Except ε α} {e : ε'}
    (h : x.mapError g = .error e) : ∃ cause, x = .error cause ∧ e = g cause := by
  cases x with
  | error cause =>
      cases h
      exact ⟨cause, rfl, rfl⟩
  | ok a => cases h

/-- A sequence of effects comes to a value through one of its first part. -/
theorem run_of_bind {x : ExceptT ε (StateM σ) α} {f : α → ExceptT ε (StateM σ) β} {s s' : σ} {b : β}
    (h : (x >>= f).run s = (.ok b, s')) :
    ∃ a s₁, x.run s = (.ok a, s₁) ∧ (f a).run s₁ = (.ok b, s') := by
  cases first : x.run s with
  | mk outcome s₁ =>
      simp only [ExceptT.run, bind, ExceptT.bind, ExceptT.mk, StateT.bind] at h first
      rw [first] at h
      cases outcome with
      | error e => cases h
      | ok a => exact ⟨a, s₁, rfl, h⟩

/-- What a computation that comes to a value goes on with. -/
theorem bind_of_ok {x : ExceptT ε (StateM σ) α} {f : α → ExceptT ε (StateM σ) β} {a : α} {s s' : σ}
    (h : x s = (.ok a, s')) : (x >>= f) s = f a s' := by
  simp only [bind, ExceptT.bind, ExceptT.mk, StateT.bind, h, ExceptT.bindCont]

/-- A computation that fails goes on with nothing. -/
theorem bind_of_error {x : ExceptT ε (StateM σ) α} {f : α → ExceptT ε (StateM σ) β} {e : ε} {s s' : σ}
    (h : x s = (.error e, s')) : (x >>= f) s = (.error e, s') := by
  simp only [bind, ExceptT.bind, ExceptT.mk, StateT.bind, h, ExceptT.bindCont]
  rfl

/-- A sequence fails where its first part does, or else where its second part does. -/
theorem run_bind_error_iff {x : ExceptT ε (StateM σ) α} {f : α → ExceptT ε (StateM σ) β} {s s' : σ}
    {e : ε} : (x >>= f).run s = (.error e, s') ↔ x.run s = (.error e, s')
      ∨ ∃ a s₁, x.run s = (.ok a, s₁) ∧ (f a).run s₁ = (.error e, s') := by
  rcases first : x.run s with ⟨_ | a, s₁⟩
  · refine ⟨fun failed => .inl ?_, ?_⟩
    · cases (bind_of_error first).symm.trans failed
      rfl
    · rintro (failed | ⟨_, _, never, _⟩)
      · cases failed
        exact bind_of_error first
      · cases never
  · refine ⟨fun failed => .inr ⟨a, s₁, rfl, (bind_of_ok first).symm.trans failed⟩, ?_⟩
    rintro (never | ⟨_, _, same, failed⟩)
    · cases never
    · cases same
      exact (bind_of_ok first).trans failed

/-- A result without effects leaves the state alone. -/
theorem run_of_lift {r : Except ε α} {s s' : σ} {a : α}
    (h : (liftM r : ExceptT ε (StateM σ) α).run s = (.ok a, s')) : r = .ok a ∧ s' = s := by
  cases r with
  | error e => cases h
  | ok b =>
      cases h
      exact ⟨rfl, rfl⟩

theorem run_of_pure {s s' : σ} {a b : α}
    (h : (pure a : ExceptT ε (StateM σ) α).run s = (.ok b, s')) : b = a ∧ s' = s := by
  cases h
  exact ⟨rfl, rfl⟩

/-- The same for a state that a failure discards. -/
theorem some_of_bind {x : StateT σ (Except ε) α} {f : α → StateT σ (Except ε) β} {s s' : σ} {b : β}
    (h : (x >>= f).run s = .ok (b, s')) :
    ∃ a s₁, x.run s = .ok (a, s₁) ∧ (f a).run s₁ = .ok (b, s') := by
  obtain ⟨⟨a, s₁⟩, first, second⟩ := ok_of_bind h
  exact ⟨a, s₁, first, second⟩

/-! ### Traversals -/

theorem exists_of_mem_right {R : α → β → Prop} {as : List α} {bs : List β} {b : β}
    (h : List.Forall₂ R as bs) (inside : b ∈ bs) : ∃ a ∈ as, R a b := by
  induction h with
  | nil => cases inside
  | @cons a b' _ _ first _ ih =>
      obtain rfl | later := List.mem_cons.mp inside
      · exact ⟨a, List.mem_cons_self, first⟩
      · obtain ⟨a, there, related⟩ := ih later
        exact ⟨a, List.mem_cons_of_mem _ there, related⟩

theorem exists_of_mem_left {R : α → β → Prop} {as : List α} {bs : List β} {a : α}
    (h : List.Forall₂ R as bs) (inside : a ∈ as) : ∃ b ∈ bs, R a b := by
  obtain ⟨b, there, related⟩ := exists_of_mem_right h.flip inside
  exact ⟨b, there, related⟩

/-- Where every element is related to something, all of them are related to a list. -/
theorem exists_forall₂ {R : α → β → Prop} {as : List α} (each : ∀ a ∈ as, ∃ b, R a b) :
    ∃ bs, List.Forall₂ R as bs := by
  induction as with
  | nil => exact ⟨[], .nil⟩
  | cons a rest ih =>
      rw [List.forall_mem_cons] at each
      obtain ⟨b, first⟩ := each.1
      obtain ⟨bs, later⟩ := ih each.2
      exact ⟨b :: bs, .cons first later⟩

/-- Elements at the same position are related. -/
theorem getElem?_of_forall₂ {R : α → β → Prop} {as : List α} {bs : List β} {i : Nat} {b : β}
    (h : List.Forall₂ R as bs) (found : bs[i]? = some b) : ∃ a, as[i]? = some a ∧ R a b := by
  induction h generalizing i with
  | nil => cases found
  | cons first _ ih =>
      cases i with
      | zero =>
          cases found
          exact ⟨_, rfl, first⟩
      | succ i => exact ih found

theorem lookup_map_snd (g : α → β) (vars : List (String × α)) (name : String) :
    (vars.map (Prod.map id g)).lookup name = (vars.lookup name).map g := by
  induction vars with
  | nil => rfl
  | cons v rest ih =>
      rw [List.map_cons, List.lookup_cons, List.lookup_cons, ih]
      dsimp only [Prod.map, id]
      split <;> rfl

theorem mapM_congr_forall₂ {m : Type → Type} [Monad m] [LawfulMonad m] {γ : Type} {f : α → m γ}
    {g : β → m γ} {as : List α} {bs : List β} (h : List.Forall₂ (fun a b => f a = g b) as bs) :
    as.mapM f = bs.mapM g := by
  induction h with
  | nil => rfl
  | cons first _ ih => rw [List.mapM_cons, List.mapM_cons, first, ih]

theorem mapM_some_iff {f : α → Option β} {as : List α} {bs : List β} :
    as.mapM f = some bs ↔ List.Forall₂ (fun a b => f a = some b) as bs := by
  induction as generalizing bs with
  | nil => simp [eq_comm]
  | cons a rest ih =>
      simp only [List.mapM_cons, Option.bind_eq_bind, Option.bind_eq_some_iff, Option.pure_def,
        Option.some.injEq, List.forall₂_cons_left_iff, ih]
      grind

/-- A traversal comes to values if every element does. -/
theorem exists_mapM_some {f : α → Option β} {as : List α} (each : ∀ a ∈ as, ∃ b, f a = some b) :
    ∃ bs, as.mapM f = some bs :=
  (exists_forall₂ each).imp fun _ => mapM_some_iff.mpr

theorem mapM_ok_iff {f : α → Except ε β} {as : List α} {bs : List β} :
    as.mapM f = .ok bs ↔ List.Forall₂ (fun a b => f a = .ok b) as bs := by
  induction as generalizing bs with
  | nil => simp [pure, Except.pure, eq_comm]
  | cons a rest ih =>
      rw [List.mapM_cons, List.forall₂_cons_left_iff]
      cases first : f a with
      | error e => simp [bind, Except.bind]
      | ok b =>
          cases later : rest.mapM f with
          | error e => simp [bind, Except.bind, ← ih, later]
          | ok bs' =>
              simp only [bind, Except.bind, pure, Except.pure, Except.ok.injEq, ← ih, later]
              grind

theorem exists_mapM_ok {f : α → Except ε β} {as : List α}
    (each : ∀ a ∈ as, ∃ b, f a = .ok b) : ∃ bs, as.mapM f = .ok bs :=
  (exists_forall₂ each).imp fun _ => mapM_ok_iff.mpr

/-- A traversal fails with the failure of an element after others that do not fail. -/
theorem mapM_error_iff {f : α → Except ε β} {as : List α} {e : ε} :
    as.mapM f = .error e ↔ ∃ before a after, as = before ++ a :: after ∧ f a = .error e
      ∧ ∀ b ∈ before, ∃ c, f b = .ok c := by
  induction as with
  | nil => simp [pure, Except.pure]
  | cons a rest ih =>
      rw [List.mapM_cons]
      cases first : f a with
      | error e' =>
          constructor
          · rintro ⟨⟩
            exact ⟨[], a, rest, rfl, first, List.forall_mem_nil _⟩
          · rintro ⟨before, a', after, split, failed, earlier⟩
            cases before with
            | nil =>
                cases split
                cases first.symm.trans failed
                rfl
            | cons b before =>
                cases split
                obtain ⟨c, ran⟩ := earlier a List.mem_cons_self
                cases first.symm.trans ran
      | ok b =>
          have later : (do return b :: (← rest.mapM f)) = .error e ↔ rest.mapM f = .error e := by
            cases rest.mapM f <;> simp [bind, Except.bind, pure, Except.pure]
          refine later.trans (ih.trans ⟨?_, ?_⟩)
          · rintro ⟨before, a', after, rfl, failed, earlier⟩
            exact ⟨a :: before, a', after, rfl, failed, List.forall_mem_cons.mpr ⟨⟨b, first⟩, earlier⟩⟩
          · rintro ⟨before, a', after, split, failed, earlier⟩
            cases before with
            | nil =>
                cases split
                cases first.symm.trans failed
            | cons c before =>
                cases split
                exact ⟨before, a', after, rfl, failed, (List.forall_mem_cons.mp earlier).2⟩

theorem exists_error_of_mapM {f : α → Except ε β} {as : List α} {e : ε}
    (h : as.mapM f = .error e) : ∃ a ∈ as, f a = .error e := by
  obtain ⟨before, a, after, rfl, failed, -⟩ := mapM_error_iff.mp h
  exact ⟨a, by simp, failed⟩

theorem run_mapM_ok {f : α → StateT σ (Except ε) β} {as : List α} {bs : List β} {s s' : σ}
    (h : (as.mapM f).run s = .ok (bs, s')) :
    List.Forall₂ (fun a b => ∃ s₁ s₂, (f a).run s₁ = .ok (b, s₂)) as bs := by
  induction as generalizing bs s with
  | nil =>
      cases h
      exact .nil
  | cons a rest ih =>
      rw [List.mapM_cons] at h
      obtain ⟨b, s₁, first, h⟩ := some_of_bind h
      obtain ⟨bs', s₂, later, h⟩ := some_of_bind h
      cases h
      exact .cons ⟨s, s₁, first⟩ (ih later)

theorem forM_ok {f : α → Except ε Unit} {as : List α} (h : as.forM f = .ok ()) {a : α}
    (inside : a ∈ as) : f a = .ok () := by
  induction as with
  | nil => cases inside
  | cons b rest ih =>
      change (f b >>= fun _ => rest.forM f) = .ok () at h
      obtain ⟨⟨⟩, first, later⟩ := ok_of_bind h
      obtain rfl | later' := List.mem_cons.mp inside
      · exact first
      · exact ih later later'

end TablePlan
