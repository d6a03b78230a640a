import ReductionStepper.Proofs.Graph.Bound

/-!
# Well-formed graphs

An evaluator promises more of a graph than `Graph.ofParts` checks: stepping never comes back to a
term, the last term takes no step, and stepping from the root gets there. On such a graph the path
between two terms is the only one, so paths compose, and every term has a value.
-/

namespace ReductionStepper

open Relation (ReflTransGen TransGen)

/-- A graph as an evaluator promises it. -/
structure Graph.WellFormed (graph : Graph) : Prop where
  acyclic : ∀ id, ¬ TransGen (Index.ofGraph graph).Next id id
  ending_rests : (Index.ofGraph graph).outgoing graph.ending.term .stepsTo = []
  ending_reached : ReflTransGen (Index.ofGraph graph).Next graph.root graph.ending.term

namespace Index

variable {index : Index} {source target : TermId} {path : List Edge}

/-- Stepping leads from each term along a path to all later ones. -/
theorem Leads.pairwise (h : Leads index source path target) :
    (source :: path.map Edge.target).Pairwise (TransGen index.Next) := by
  induction h with
  | refl => exact List.pairwise_singleton _ _
  | @step source target first later hfirst hlater ih =>
    have hnext : index.Next source first.target := Option.map_eq_some_iff.mpr ⟨first, hfirst, rfl⟩
    refine List.pairwise_cons.mpr ⟨?_, ih⟩
    intro id hid
    rcases List.mem_cons.mp hid with rfl | hid
    · exact .single hnext
    · exact .head hnext ((List.pairwise_cons.mp ih).1 id hid)

/-- A term steps to its value. -/
theorem reaches_value (index : Index) (id : TermId) :
    ReflTransGen index.Next id (index.value id) := by
  obtain ⟨path, hpath⟩ := leads_value index id
  exact hpath.reflTransGen

end Index

namespace Graph.WellFormed

open Index

variable {graph : Graph} (hgraph : graph.WellFormed) {source middle target : TermId}
  {path later : List Edge}

include hgraph

/-- The last term has no next term. -/
theorem next?_ending : (ofGraph graph).next? graph.ending.term = none :=
  next?_eq_none_iff.mpr hgraph.ending_rests

/-- No path but the empty one comes back. -/
theorem eq_nil_of_leads (h : Leads (ofGraph graph) source path source) : path = [] := by
  by_contra hne
  exact hgraph.acyclic source (h.transGen hne)

/-- Every path that is not empty meets its end at the end only. -/
theorem arrives_of_leads (h : Leads (ofGraph graph) source path target) (hne : path ≠ []) :
    Arrives (ofGraph graph) source path target := by
  obtain ⟨found, rest, rfl, hfound⟩ := h.exists_arrives hne
  obtain ⟨rest', hrest', hloop⟩ := hfound.leads.exists_append h (by simp)
  obtain rfl := List.append_cancel_left hrest'
  rw [hgraph.eq_nil_of_leads hloop, List.append_nil]
  exact hfound

/-- A walk finds every path, the empty one included. -/
theorem path_eq (h : Leads (ofGraph graph) source path target) :
    (ofGraph graph).path source target = path := by
  by_cases hne : path = []
  · subst hne
    obtain rfl := Leads.nil_iff.mp h
    by_contra hfound
    exact hfound (hgraph.eq_nil_of_leads ((path_eq_iff hfound).mp rfl).leads)
  · exact (path_eq_iff hne).mpr (hgraph.arrives_of_leads h hne)

/-- A walk finds the path to whatever stepping reaches. -/
theorem leads_path (h : ReflTransGen (ofGraph graph).Next source target) :
    Leads (ofGraph graph) source ((ofGraph graph).path source target) target := by
  obtain ⟨path, hpath⟩ := Leads.of_reflTransGen h
  rwa [hgraph.path_eq hpath]

/-- The path over a term between is the two paths to it and from it. -/
theorem path_append (h : ReflTransGen (ofGraph graph).Next source middle)
    (hlater : ReflTransGen (ofGraph graph).Next middle target) :
    (ofGraph graph).path source middle ++ (ofGraph graph).path middle target =
      (ofGraph graph).path source target :=
  (hgraph.path_eq ((hgraph.leads_path h).trans (hgraph.leads_path hlater))).symm

/-- A term lies strictly inside a path exactly when at least one step leads to it and on from it. -/
theorem inside_iff {id : TermId} :
    (ofGraph graph).Inside source target id ↔
      TransGen (ofGraph graph).Next source id ∧ TransGen (ofGraph graph).Next id target := by
  constructor
  · rintro ⟨hmem, hsource, htarget⟩
    have hne : (ofGraph graph).path source target ≠ [] := by
      intro hnil
      simp [hnil, pathTerms] at hmem
    have hleads := (arrives_path hne).leads
    rw [hleads.pathTerms_eq hne, List.mem_cons, hleads.mem_targets_iff] at hmem
    obtain rfl | ⟨before, after, hbefore, -, hto, hfrom⟩ := hmem
    · exact absurd rfl hsource
    · refine ⟨hto.transGen hbefore, hfrom.transGen ?_⟩
      rintro rfl
      exact htarget (Leads.nil_iff.mp hfrom)
  · rintro ⟨hto, hfrom⟩
    obtain ⟨before, hbefore, hleads⟩ := Leads.of_transGen hto
    obtain ⟨after, -, hrest⟩ := Leads.of_transGen hfrom
    have hwhole := hleads.trans hrest
    have hne : before ++ after ≠ [] := by simp [hbefore]
    refine ⟨?_, ?_, ?_⟩
    · rw [hgraph.path_eq hwhole, hwhole.pathTerms_eq hne]
      exact List.mem_cons_of_mem _ (hwhole.mem_targets_iff.mpr
        ⟨before, after, hbefore, rfl, hleads, hrest⟩)
    · rintro rfl
      exact hgraph.acyclic _ hto
    · rintro rfl
      exact hgraph.acyclic _ hfrom

/-- No term is met twice along a path. -/
theorem nodup_pathTerms (source target : TermId) :
    (pathTerms ((ofGraph graph).path source target)).Nodup := by
  by_cases hne : (ofGraph graph).path source target = []
  · simp [hne, pathTerms]
  · have hleads := (arrives_path hne).leads
    rw [hleads.pathTerms_eq hne]
    refine hleads.pairwise.imp ?_
    rintro id _ hstep rfl
    exact hgraph.acyclic id hstep

/-! ## Values -/

/-- The chain of every term ends. -/
theorem settle_eq (id : TermId) :
    (ofGraph graph).settle id = .ended ((ofGraph graph).value id) := by
  cases h : (ofGraph graph).settle id with
  | ended target => rw [value, h, Settling.term]
  | unsettled target => exact absurd (cycle_of_settle_eq_unsettled h) (hgraph.acyclic target)

/-- A value takes no step. -/
theorem next?_value (id : TermId) :
    (ofGraph graph).next? ((ofGraph graph).value id) = none :=
  (settle_eq_ended_iff.mp (hgraph.settle_eq id)).2

/-- Whatever a term steps to without a step of its own is the value of the term. -/
theorem value_eq (h : ReflTransGen (ofGraph graph).Next source target)
    (hnone : (ofGraph graph).next? target = none) : (ofGraph graph).value source = target := by
  have hended : (ofGraph graph).settle source = .ended target :=
    settle_eq_ended_iff.mpr ⟨h, hnone⟩
  exact Settling.ended.inj ((hgraph.settle_eq source).symm.trans hended)

/-- Steps keep the value. -/
theorem value_eq_value (h : ReflTransGen (ofGraph graph).Next source target) :
    (ofGraph graph).value source = (ofGraph graph).value target :=
  hgraph.value_eq (h.trans (reaches_value _ target)) (hgraph.next?_value target)

end Graph.WellFormed

namespace Graph

open Index

/-- Steps that raise a rank never come back to a term. -/
theorem acyclic_of_rank {graph : Graph} (rank : TermId → Nat)
    (hrank : ∀ edge ∈ graph.edges, edge.has .stepsTo = true →
      rank edge.source < rank edge.target) (id : TermId) :
    ¬ TransGen (ofGraph graph).Next id id := by
  have hnext : ∀ a b, (ofGraph graph).Next a b → rank a < rank b := by
    intro a b hab
    obtain ⟨step, hstep, rfl⟩ := Option.map_eq_some_iff.mp hab
    obtain ⟨hmem, rfl, hhas⟩ := mem_outgoing.mp (step?_mem hstep)
    exact hrank step hmem hhas
  intro hcycle
  have hlater := hcycle.lift rank hnext
  rw [Relation.transGen_eq_self] at hlater
  exact Nat.lt_irrefl _ hlater

/-! ## A call inside a term -/

/-- A graph with a call: `r` steps to `v` over `s`, `t` and `u`, while its subterm `f` makes a call
of its own and gets to `h`, which is a subterm of `u`. -/
def nestedCall : Graph :=
  let id (text : String) (h : text ≠ "") : TermId := ⟨text, h⟩
  let r := id "r" (by decide)
  let s := id "s" (by decide)
  let t := id "t" (by decide)
  let u := id "u" (by decide)
  let v := id "v" (by decide)
  let f := id "f" (by decide)
  let g := id "g" (by decide)
  let h := id "h" (by decide)
  { terms := [r, s, t, u, v, f, g, h].map fun id => ⟨id, id.text, none⟩
    edges :=
      [⟨r, s, "StepsTo CallStep"⟩, ⟨s, t, "StepsTo"⟩, ⟨t, u, "StepsTo ReturnStep"⟩,
        ⟨u, v, "StepsTo"⟩, ⟨f, g, "StepsTo CallStep"⟩, ⟨g, h, "StepsTo ReturnStep"⟩,
        ⟨r, f, "SubTerm"⟩, ⟨s, g, "SubTerm"⟩, ⟨u, h, "SubTerm"⟩]
    root := r
    ending := .value v
    nodup_ids := by decide
    root_mem := by decide
    ending_mem := by decide
    ends_mem := by decide }

/-- The graph with a call is well-formed. -/
theorem wellFormed_nestedCall : nestedCall.WellFormed where
  acyclic := acyclic_of_rank nestedCall.ids.idxOf (by decide +kernel)
  ending_rests := by decide +kernel
  ending_reached := (path_ne_nil_iff.mp (by decide +kernel)).to_reflTransGen

end Graph

end ReductionStepper
