import ReductionStepper.Proofs.Graph.Steps

/-!
# Terms inside a path

A term is inside a path if it lies on it strictly between the two ends. A walk meets its goal at the
last step only and leaves every term once, so the term between two hops of a path is always inside
it, whatever the steps of the graph look like.
-/

namespace ReductionStepper

namespace Index

/-- A term on the way from one term to another, other than its two ends. -/
def Inside (index : Index) (source target id : TermId) : Prop :=
  id ∈ pathTerms (index.path source target) ∧ id ≠ source ∧ id ≠ target

variable {graph : Graph} {source target id : TermId} {hop : Edge} {path before after : List Edge}

/-- The terms after the first along a path are those where it can be cut in two. -/
theorem Leads.mem_targets_iff {index : Index} (h : Leads index source path target) :
    id ∈ path.map Edge.target ↔
      ∃ before after, before ≠ [] ∧ path = before ++ after ∧
        Leads index source before id ∧ Leads index id after target := by
  induction h with
  | refl => simp
  | @step source target first later hfirst hlater ih =>
    rw [List.map_cons, List.mem_cons, ih]
    constructor
    · rintro (rfl | ⟨before, after, -, rfl, hbefore, hafter⟩)
      · exact ⟨[first], later, by simp, rfl, .step hfirst (.refl _), hlater⟩
      · exact ⟨first :: before, after, by simp, rfl, .step hfirst hbefore, hafter⟩
    · rintro ⟨before, after, hne, hpath, hbefore, hafter⟩
      cases hbefore with
      | refl => exact absurd rfl hne
      | @step _ _ first' before hfirst' hbefore =>
        obtain ⟨rfl, rfl⟩ := List.cons.inj hpath
        by_cases hnil : before = []
        · subst hnil
          exact .inl (nil_iff.mp hbefore).symm
        · exact .inr ⟨before, after, hnil, rfl, hbefore, hafter⟩

/-- The terms along a path that is not empty. -/
theorem Leads.pathTerms_eq (h : Leads (ofGraph graph) source path target) (hne : path ≠ []) :
    pathTerms path = source :: path.map Edge.target := by
  cases h with
  | refl => exact absurd rfl hne
  | step hfirst => rw [pathTerms, source_of_step? hfirst]

/-- A path that a walk finds arrives. -/
theorem arrives_path (hne : (ofGraph graph).path source target ≠ []) :
    Arrives (ofGraph graph) source ((ofGraph graph).path source target) target :=
  (path_eq_iff hne).mp rfl

/-- A hop other than the first starts inside the path. -/
theorem inside_source (h : (ofGraph graph).path source target = before ++ hop :: after)
    (hne : before ≠ []) : (ofGraph graph).Inside source target hop.source := by
  have harrives : Arrives (ofGraph graph) source (before ++ hop :: after) target :=
    h ▸ arrives_path (by simp [h])
  obtain ⟨hbefore, hafter⟩ := harrives.leads.of_append_cons
  refine ⟨?_, ?_, ?_⟩
  · rw [h, harrives.leads.pathTerms_eq (by simp), List.mem_cons, harrives.leads.mem_targets_iff]
    exact .inr ⟨before, hop :: after, hne, rfl, hbefore, hafter⟩
  · obtain ⟨first, rest, rfl⟩ := List.exists_cons_of_ne_nil hne
    have hfirst := source_of_step? (Leads.cons_iff.mp hbefore).1
    have hnodup := harrives.nodup_sources
    rw [List.cons_append, List.map_cons, hfirst, List.nodup_cons] at hnodup
    intro heq
    exact hnodup.1 (heq ▸ List.mem_map_of_mem (by simp))
  · intro heq
    rw [heq] at hbefore
    have hle := harrives.length_le hbefore hne
    rw [List.length_append, List.length_cons] at hle
    omega

/-- A hop other than the last ends inside the path. -/
theorem inside_target (h : (ofGraph graph).path source target = before ++ hop :: after)
    (hne : after ≠ []) : (ofGraph graph).Inside source target hop.target := by
  obtain ⟨next, rest, rfl⟩ := List.exists_cons_of_ne_nil hne
  have hleads : Leads (ofGraph graph) source (before ++ hop :: next :: rest) target :=
    h ▸ (arrives_path (by simp [h])).leads
  have hnext : next.source = hop.target :=
    source_of_step? (Leads.cons_iff.mp (Leads.cons_iff.mp hleads.of_append_cons.2).2).1
  have hpath : (ofGraph graph).path source target = (before ++ [hop]) ++ next :: rest := by simp [h]
  exact hnext ▸ inside_source hpath (by simp)

/-- Both ends of a hop are on the path. -/
theorem ends_mem_pathTerms (h : hop ∈ (ofGraph graph).path source target) :
    hop.source ∈ pathTerms ((ofGraph graph).path source target) ∧
      hop.target ∈ pathTerms ((ofGraph graph).path source target) := by
  have hne := List.ne_nil_of_mem h
  have hterms := (arrives_path hne).leads.pathTerms_eq hne
  constructor
  · obtain ⟨before, after, hpath⟩ := List.append_of_mem h
    by_cases hnil : before = []
    · subst hnil
      simp [hpath, pathTerms]
    · exact (inside_source hpath hnil).1
  · rw [hterms]
    exact List.mem_cons_of_mem _ (List.mem_map_of_mem h)

/-- The index knows whatever lies inside a path. -/
theorem contains_of_inside (h : (ofGraph graph).Inside source target id) :
    (ofGraph graph).contains id = true := by
  obtain ⟨hmem, hsource, -⟩ := h
  have hne : (ofGraph graph).path source target ≠ [] := by
    intro hnil
    simp [hnil, pathTerms] at hmem
  have hleads := (arrives_path hne).leads
  rw [hleads.pathTerms_eq hne, List.mem_cons] at hmem
  obtain ⟨step, hstep, rfl⟩ := List.mem_map.mp (hmem.resolve_left hsource)
  exact (contains_ofGraph graph _).mpr (graph.ends_mem step (hleads.subset_edges hstep)).2

end Index

end ReductionStepper
