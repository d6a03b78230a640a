import Mathlib.Data.List.Forall2

/-!
# Results of several stages

Stages one behind the other succeed if each does on the result of the one before, and fail as the
first one that does not. What is made from a list entry by entry succeeds if every entry does, and
fails as the first entry that does not.
-/

namespace ReductionStepper.Fallible

variable {ε α β γ : Type}

/-! ## Two stages -/

section Stages

variable {x : Except ε α} {f : α → Except ε β} {a : α} {b : β} {error : ε}

/-- A stage that succeeded hands its result on. -/
@[simp] theorem ok_bind (a : α) (f : α → Except ε β) : (Except.ok a >>= f) = f a := rfl

/-- Two stages succeed exactly if the second does on the result of the first. -/
theorem bind_eq_ok_iff : x >>= f = .ok b ↔ ∃ a, x = .ok a ∧ f a = .ok b := by
  cases x <;> simp [bind, Except.bind]

/-- Two stages fail exactly if the first does, or the second on the result of the first. -/
theorem bind_eq_error_iff :
    x >>= f = .error error ↔ x = .error error ∨ ∃ a, x = .ok a ∧ f a = .error error := by
  cases x <;> simp [bind, Except.bind]

end Stages

/-! ## Entry by entry -/

variable {f : α → Except ε β} {list : List α} {results : List β} {error : ε}

/-- A list succeeds exactly if every entry does, with the results in the order of the entries. -/
theorem mapM_eq_ok_iff :
    list.mapM f = .ok results ↔ List.Forall₂ (fun a b => f a = .ok b) list results := by
  induction list generalizing results with
  | nil => simp [pure, Except.pure, eq_comm]
  | cons a later ih =>
    simp only [List.mapM_cons, bind_eq_ok_iff, ih, pure, Except.pure, Except.ok.injEq,
      List.forall₂_cons_left_iff]
    constructor
    · rintro ⟨b, hb, rest, hrest, rfl⟩
      exact ⟨b, rest, hb, hrest, rfl⟩
    · rintro ⟨b, rest, hb, hrest, rfl⟩
      exact ⟨b, hb, rest, hrest, rfl⟩

/-- No entry of a list that succeeds fails. -/
theorem exists_ok_of_mapM_eq_ok (h : list.mapM f = .ok results) :
    ∀ a ∈ list, ∃ b, f a = .ok b :=
  ((List.forall₂_and_left _ _).mp ((mapM_eq_ok_iff.mp h).imp fun _ b hb => ⟨⟨b, hb⟩, hb⟩)).1

/-- A list fails exactly as its first entry that fails. -/
theorem mapM_eq_error_iff :
    list.mapM f = .error error ↔ ∃ good bad later, list = good ++ bad :: later ∧
      (∀ a ∈ good, ∃ b, f a = .ok b) ∧ f bad = .error error := by
  induction list with
  | nil => simp [pure, Except.pure]
  | cons a list ih =>
    rw [List.mapM_cons, bind_eq_error_iff]
    simp only [bind_eq_error_iff, ih, pure, Except.pure, reduceCtorEq, and_false, exists_false,
      or_false]
    constructor
    · rintro (hfirst | ⟨b, hfirst, good, bad, later, rfl, hgood, hbad⟩)
      · exact ⟨[], a, list, rfl, by simp, hfirst⟩
      · exact ⟨a :: good, bad, later, rfl, List.forall_mem_cons.mpr ⟨⟨b, hfirst⟩, hgood⟩, hbad⟩
    · rintro ⟨good, bad, later, hlist, hgood, hbad⟩
      cases good with
      | nil =>
        cases hlist
        exact .inl hbad
      | cons first good =>
        cases hlist
        obtain ⟨⟨b, hfirst⟩, hgood⟩ := List.forall_mem_cons.mp hgood
        exact .inr ⟨b, hfirst, good, bad, later, rfl, hgood, hbad⟩

/-- Entries that are written one by one are read back one by one. -/
theorem mapM_map_eq_ok {g : β → α} (h : ∀ b, f (g b) = .ok b) (results : List β) :
    (results.map g).mapM f = .ok results := by
  rw [mapM_eq_ok_iff, List.forall₂_map_left_iff, List.forall₂_same]
  exact fun b _ => h b

/-- What is made from a list says what the list says, if it does so entry by entry. -/
theorem mapM_eq_ok_iff_map_eq {given : α → γ} {made : β → γ}
    (hf : ∀ a b, f a = .ok b ↔ made b = given a) :
    list.mapM f = .ok results ↔ results.map made = list.map given := by
  simp only [mapM_eq_ok_iff, hf, @eq_comm _ (made _)]
  rw [eq_comm, ← List.forall₂_eq_eq_eq, List.forall₂_map_left_iff, List.forall₂_map_right_iff]

/-- Of two lists that agree entry by entry the same is made. -/
theorem mapM_eq_mapM_of_forall₂ {r : α → α → Prop} {others : List α}
    (hf : ∀ a b, r a b → f a = f b) (h : List.Forall₂ r list others) :
    list.mapM f = others.mapM f := by
  induction h with
  | nil => rfl
  | cons hentry _ ih => rw [List.mapM_cons, List.mapM_cons, hf _ _ hentry, ih]

end ReductionStepper.Fallible
