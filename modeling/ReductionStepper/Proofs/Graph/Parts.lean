import ReductionStepper.Proofs.Graph.Scan

/-!
# Parts that make a graph

Parts make a graph exactly if none of its conditions fails, and then the graph has these very parts.
Otherwise the error tells of the first condition that fails: a repeated id, then an unknown root, an
unknown last term, and at last an edge with an unknown end.
-/

namespace ReductionStepper

namespace Graph

/-- The first condition that parts of a graph fail. -/
inductive FirstFault (terms : List Term) (edges : List Edge) (root : TermId) (ending : Ending) :
    GraphError → Prop where
  /-- The first id that occurred before. -/
  | duplicateTerm {before after : List TermId} {id : TermId}
      (hids : terms.map Term.id = before ++ id :: after) (hbefore : before.Nodup)
      (hrepeat : id ∈ before) : FirstFault terms edges root ending (.duplicateTerm id)
  | unknownRoot (hnodup : (terms.map Term.id).Nodup) (hroot : root ∉ terms.map Term.id) :
      FirstFault terms edges root ending (.unknownRoot root)
  | unknownEnding (hnodup : (terms.map Term.id).Nodup) (hroot : root ∈ terms.map Term.id)
      (hending : ending.term ∉ terms.map Term.id) :
      FirstFault terms edges root ending (.unknownEnding ending.term)
  /-- The first edge with an end outside the graph; of its two ends the source comes first. -/
  | unknownEnd {before after : List Edge} {edge : Edge} {missing : TermId}
      (hnodup : (terms.map Term.id).Nodup) (hroot : root ∈ terms.map Term.id)
      (hending : ending.term ∈ terms.map Term.id) (hedges : edges = before ++ edge :: after)
      (hbefore : ∀ earlier ∈ before,
        earlier.source ∈ terms.map Term.id ∧ earlier.target ∈ terms.map Term.id)
      (hmissing : edge.source ∉ terms.map Term.id ∧ missing = edge.source ∨
        edge.source ∈ terms.map Term.id ∧ edge.target ∉ terms.map Term.id ∧
          missing = edge.target) :
      FirstFault terms edges root ending (.unknownEnd edge.source edge.target missing)

variable {terms : List Term} {edges : List Edge} {root id missing : TermId} {ending : Ending}
  {ids seen : List TermId} {edge : Edge} {graph : Graph} {error : GraphError}

private theorem exists_append_cons_iff {α : Type} {P : List α → Prop} {first a : α}
    {later : List α} :
    (∃ before after, first :: later = before ++ a :: after ∧ P before) ↔
      first = a ∧ P [] ∨ ∃ before after, later = before ++ a :: after ∧ P (first :: before) := by
  constructor
  · rintro ⟨before, after, hlist, hbefore⟩
    cases before with
    | nil => exact .inl ⟨(List.cons.inj hlist).1, hbefore⟩
    | cons x before =>
      obtain ⟨rfl, rfl⟩ := List.cons.inj hlist
      exact .inr ⟨before, after, rfl, hbefore⟩
  · rintro (⟨rfl, hbefore⟩ | ⟨before, after, rfl, hbefore⟩)
    · exact ⟨[], later, rfl, hbefore⟩
    · exact ⟨first :: before, after, rfl, hbefore⟩

/-- The first repeat is the first id that stands behind itself or was seen before. -/
theorem firstRepeat?_eq_some_iff :
    firstRepeat? seen ids = some id ↔
      ∃ before after, ids = before ++ id :: after ∧ before.Nodup ∧ (∀ x ∈ before, x ∉ seen) ∧
        (id ∈ before ∨ id ∈ seen) := by
  induction ids generalizing seen with
  | nil => simp [firstRepeat?]
  | cons first later ih =>
    rw [firstRepeat?, exists_append_cons_iff]
    split
    · next hseen =>
      rw [Option.some.injEq]
      constructor
      · rintro rfl
        exact .inl ⟨rfl, List.nodup_nil, by simp, .inr hseen⟩
      · rintro (⟨rfl, -⟩ | ⟨before, after, -, -, hbefore, -⟩)
        · rfl
        · exact absurd hseen (hbefore first List.mem_cons_self)
    · next hseen =>
      rw [ih, or_iff_right]
      · refine exists_congr fun before => exists_congr fun after => and_congr_right fun _ => ?_
        -- an id before the repeat is new if it is neither seen nor the first one
        rw [List.nodup_cons, List.forall_mem_cons]
        grind
      · rintro ⟨rfl, -, -, hrepeat⟩
        exact hseen (hrepeat.resolve_left List.not_mem_nil)

/-- The first dangling edge is the first one with an end outside the ids. -/
theorem firstDangling?_eq_some_iff :
    firstDangling? ids edges = some (edge, missing) ↔
      ∃ before after, edges = before ++ edge :: after ∧
        (∀ earlier ∈ before, earlier.source ∈ ids ∧ earlier.target ∈ ids) ∧
        (edge.source ∉ ids ∧ missing = edge.source ∨
          edge.source ∈ ids ∧ edge.target ∉ ids ∧ missing = edge.target) := by
  induction edges with
  | nil => simp [firstDangling?]
  | cons first later ih =>
    rw [firstDangling?, exists_append_cons_iff]
    simp only [List.forall_mem_cons]
    split
    · next hsource => grind
    · next hsource =>
      split
      · next htarget => grind
      · next htarget =>
        rw [Decidable.not_not] at hsource htarget
        refine ih.trans ((or_iff_right ?_).trans ?_).symm
        · rintro ⟨rfl, -, hmissing⟩
          simp [hsource, htarget] at hmissing
        · simp only [hsource, htarget, and_self, true_and]

private theorem firstRepeat?_ne_some_of_nodup (hnodup : ids.Nodup) :
    firstRepeat? [] ids ≠ some id := by
  rw [firstRepeat?_of_nodup hnodup fun _ _ => List.not_mem_nil]
  exact (Option.some_ne_none id).symm

/-- Parts make exactly the graph that has them, if there is one. -/
theorem ofParts_eq_ok_iff :
    ofParts terms edges root ending = .ok graph ↔
      graph.terms = terms ∧ graph.edges = edges ∧ graph.root = root ∧ graph.ending = ending := by
  constructor
  · intro h
    unfold ofParts at h
    split at h
    · cases h
    · split at h
      · cases h
      · split at h
        · cases h
        · split at h
          · cases h
          · cases h
            exact ⟨rfl, rfl, rfl, rfl⟩
  · rintro ⟨rfl, rfl, rfl, rfl⟩
    exact ofParts_parts graph

/-- Parts that meet all conditions fail none. -/
theorem FirstFault.elim (h : FirstFault terms edges root ending error)
    (hnodup : (terms.map Term.id).Nodup) (hroot : root ∈ terms.map Term.id)
    (hending : ending.term ∈ terms.map Term.id)
    (hends : ∀ edge ∈ edges, edge.source ∈ terms.map Term.id ∧ edge.target ∈ terms.map Term.id) :
    False := by
  cases h with
  | duplicateTerm hids _ hrepeat =>
    rw [hids] at hnodup
    exact (List.nodup_append.mp hnodup).2.2 _ hrepeat _ List.mem_cons_self rfl
  | unknownRoot _ hunknown => exact hunknown hroot
  | unknownEnding _ _ hunknown => exact hunknown hending
  | unknownEnd _ _ _ hedges _ hmissing =>
    obtain ⟨hsource, htarget⟩ := hends _ (hedges ▸ List.mem_append_right _ List.mem_cons_self)
    rcases hmissing with ⟨hunknown, -⟩ | ⟨-, hunknown, -⟩
    · exact hunknown hsource
    · exact hunknown htarget

/-- Parts are refused with the error of the first condition that they fail. -/
theorem ofParts_eq_error_iff :
    ofParts terms edges root ending = .error error ↔
      FirstFault terms edges root ending error := by
  constructor
  · intro h
    unfold ofParts at h
    split at h
    · next id hrepeat =>
      cases h
      obtain ⟨before, after, hids, hbefore, -, hid⟩ := firstRepeat?_eq_some_iff.mp hrepeat
      exact .duplicateTerm hids hbefore (hid.resolve_right List.not_mem_nil)
    · next hrepeat =>
      have hnodup := (nodup_of_firstRepeat?_eq_none hrepeat).1
      split at h
      · next hroot =>
        cases h
        exact .unknownRoot hnodup hroot
      · next hroot =>
        have hroot := Decidable.not_not.mp hroot
        split at h
        · next hending =>
          cases h
          exact .unknownEnding hnodup hroot hending
        · next hending =>
          split at h
          · next edge missing hends =>
            cases h
            obtain ⟨before, after, hedges, hbefore, hmissing⟩ := firstDangling?_eq_some_iff.mp hends
            exact .unknownEnd hnodup hroot (Decidable.not_not.mp hending) hedges hbefore hmissing
          · cases h
  · intro h
    unfold ofParts
    cases h with
    | duplicateTerm hids hbefore hrepeat =>
      have hfirst := firstRepeat?_eq_some_iff.mpr
        ⟨_, _, hids, hbefore, fun _ _ => List.not_mem_nil, .inl hrepeat⟩
      split
      · next id hid => rw [Option.some.inj (hfirst.symm.trans hid)]
      · next hnone => rw [hfirst] at hnone; cases hnone
    | unknownRoot hnodup hroot =>
      split
      · next id hid => exact absurd hid (firstRepeat?_ne_some_of_nodup hnodup)
      · rw [dif_pos hroot]
    | unknownEnding hnodup hroot hending =>
      split
      · next id hid => exact absurd hid (firstRepeat?_ne_some_of_nodup hnodup)
      · rw [dif_neg (not_not_intro hroot), dif_pos hending]
    | unknownEnd hnodup hroot hending hedges hbefore hmissing =>
      have hfirst := firstDangling?_eq_some_iff.mpr ⟨_, _, hedges, hbefore, hmissing⟩
      split
      · next id hid => exact absurd hid (firstRepeat?_ne_some_of_nodup hnodup)
      · rw [dif_neg (not_not_intro hroot), dif_neg (not_not_intro hending)]
        split
        · next edge missing hends => cases hfirst.symm.trans hends; rfl
        · next hnone => rw [hfirst] at hnone; cases hnone

end Graph

end ReductionStepper
