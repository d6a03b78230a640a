import ReductionStepper.Graph.Index

/-!
# The index as a scan

The tables of an index answer what a scan of the term and edge lists in their order would answer.
Every later fact about the edges at a term goes through these equations; the tables themselves are
opened here only.
-/

namespace ReductionStepper

namespace Graph

/-- Distinct ids that were not seen before have no repeat. -/
theorem firstRepeat?_of_nodup {seen ids : List TermId} (hnodup : ids.Nodup)
    (hseen : ∀ id ∈ ids, id ∉ seen) : firstRepeat? seen ids = none := by
  induction ids generalizing seen with
  | nil => rfl
  | cons id later ih =>
    obtain ⟨hid, hlater⟩ := List.nodup_cons.mp hnodup
    rw [firstRepeat?, if_neg (hseen id List.mem_cons_self)]
    apply ih hlater
    intro x hx hmem
    rcases List.mem_cons.mp hmem with rfl | hmem
    · exact hid hx
    · exact hseen x (List.mem_cons_of_mem _ hx) hmem

/-- Edges between the ids have no end outside them. -/
theorem firstDangling?_of_mem {ids : List TermId} {edges : List Edge}
    (h : ∀ edge ∈ edges, edge.source ∈ ids ∧ edge.target ∈ ids) :
    firstDangling? ids edges = none := by
  induction edges with
  | nil => rfl
  | cons edge later ih =>
    obtain ⟨hsource, htarget⟩ := h edge List.mem_cons_self
    rw [firstDangling?, if_neg (not_not_intro hsource), if_neg (not_not_intro htarget)]
    exact ih fun x hx => h x (List.mem_cons_of_mem _ hx)

/-- Every graph is accepted: its parts pass all the checks. -/
theorem ofParts_parts (graph : Graph) :
    ofParts graph.terms graph.edges graph.root graph.ending = .ok graph := by
  have hrepeat : firstRepeat? [] (graph.terms.map Term.id) = none :=
    firstRepeat?_of_nodup graph.nodup_ids (by simp)
  have hends : firstDangling? (graph.terms.map Term.id) graph.edges = none :=
    firstDangling?_of_mem graph.ends_mem
  unfold ofParts
  split
  · next h => rw [hrepeat] at h; cases h
  · rw [dif_neg (not_not_intro graph.root_mem), dif_neg (not_not_intro graph.ending_mem)]
    split
    · next h => rw [hends] at h; cases h
    · rfl

end Graph

namespace Index

/-- The edges grouped under an id are those with this key, in their order. -/
theorem getD_group (key : Edge → TermId) (edges : List Edge) (id : TermId) :
    (group key edges).getD id [] = edges.filter (key · = id) := by
  induction edges with
  | nil => simp [group]
  | cons edge later ih =>
    simp only [group, List.foldr_cons] at ih ⊢
    rw [Std.TreeMap.getD_insert]
    by_cases h : key edge = id
    · subst h
      simp [ih]
    · simp [h, ih]

variable (graph : Graph)

/-- All edges that leave a term, in the order of the graph. -/
theorem leaving_ofGraph (id : TermId) :
    (ofGraph graph).leaving id = graph.edges.filter (·.source = id) :=
  getD_group Edge.source graph.edges id

/-- All edges that enter a term, in the order of the graph. -/
theorem entering_ofGraph (id : TermId) :
    (ofGraph graph).entering id = graph.edges.filter (·.target = id) :=
  getD_group Edge.target graph.edges id

/-- The edges with a tag that leave a term, in the order of the graph. -/
theorem outgoing_ofGraph (id : TermId) (tag : Tag) :
    (ofGraph graph).outgoing id tag =
      graph.edges.filter fun edge => edge.source = id ∧ edge.has tag = true := by
  simp only [outgoing, leaving_ofGraph, List.filter_filter, Bool.and_comm, Bool.decide_and,
    Bool.decide_eq_true]

/-- The edges with a tag that enter a term, in the order of the graph. -/
theorem incoming_ofGraph (id : TermId) (tag : Tag) :
    (ofGraph graph).incoming id tag =
      graph.edges.filter fun edge => edge.target = id ∧ edge.has tag = true := by
  simp only [incoming, entering_ofGraph, List.filter_filter, Bool.and_comm, Bool.decide_and,
    Bool.decide_eq_true]

private theorem getElem?_foldl_insert {terms : List Term} (hnodup : (terms.map Term.id).Nodup)
    (table : Std.TreeMap TermId Term) (id : TermId) :
    (terms.foldl (fun table term => table.insert term.id term) table)[id]? =
      (terms.find? (·.id = id)).or table[id]? := by
  induction terms generalizing table with
  | nil => simp
  | cons term later ih =>
    rw [List.map_cons, List.nodup_cons] at hnodup
    obtain ⟨hid, hlater⟩ := hnodup
    rw [List.foldl_cons, ih hlater, Std.TreeMap.getElem?_insert, List.find?_cons]
    by_cases h : term.id = id
    · subst h
      have hnone : later.find? (·.id = term.id) = none := by
        rw [List.find?_eq_none]
        intro other hother
        rw [decide_eq_true_eq]
        intro heq
        exact hid (heq ▸ List.mem_map_of_mem hother)
      simp [hnone]
    · simp [h]

/-- The index finds the term of the graph that has the id. -/
theorem term?_ofGraph (id : TermId) :
    (ofGraph graph).term? id = graph.terms.find? (·.id = id) := by
  rw [term?, ofGraph, getElem?_foldl_insert graph.nodup_ids]
  simp

private theorem filter_id_eq_toList {terms : List Term} (hnodup : (terms.map Term.id).Nodup)
    (id : TermId) : terms.filter (·.id = id) = (terms.find? (·.id = id)).toList := by
  induction terms with
  | nil => rfl
  | cons term later ih =>
    rw [List.map_cons, List.nodup_cons] at hnodup
    obtain ⟨hid, hlater⟩ := hnodup
    by_cases h : term.id = id
    · subst h
      have hnone : later.filter (·.id = term.id) = [] := by
        rw [List.filter_eq_nil_iff]
        intro other hother
        rw [decide_eq_true_eq]
        intro heq
        exact hid (heq ▸ List.mem_map_of_mem hother)
      simp [hnone]
    · simp [h, ih hlater]

/-- The index finds all the terms of the graph that have the id: one or none. -/
theorem toList_term?_ofGraph (id : TermId) :
    ((ofGraph graph).term? id).toList = graph.terms.filter (·.id = id) := by
  rw [term?_ofGraph, filter_id_eq_toList graph.nodup_ids]

/-- An index knows the ids under which it finds a term. -/
theorem contains_eq_isSome (index : Index) (id : TermId) :
    index.contains id = (index.term? id).isSome :=
  Std.TreeMap.contains_eq_isSome_getElem?

/-- The index knows exactly the ids of the graph's terms. -/
theorem contains_ofGraph (id : TermId) :
    (ofGraph graph).contains id = true ↔ id ∈ graph.ids := by
  rw [contains_eq_isSome, term?_ofGraph, List.find?_isSome, Graph.ids, List.mem_map]
  simp only [decide_eq_true_eq]

/-- The index knows the root. -/
theorem contains_root : (ofGraph graph).contains (ofGraph graph).root = true :=
  (contains_ofGraph graph _).mpr graph.root_mem

/-- The index knows the last term. -/
theorem contains_ending : (ofGraph graph).contains (ofGraph graph).ending.term = true :=
  (contains_ofGraph graph _).mpr graph.ending_mem

variable {graph}

/-- What the index finds is a term of the graph with the id. -/
theorem mem_of_term? {id : TermId} {term : Term} (h : (ofGraph graph).term? id = some term) :
    term ∈ graph.terms ∧ term.id = id := by
  rw [term?_ofGraph] at h
  exact ⟨List.mem_of_find?_eq_some h, by simpa using List.find?_some h⟩

/-- The edges with a tag that leave a term are edges of the graph. -/
theorem mem_outgoing {id : TermId} {tag : Tag} {edge : Edge} :
    edge ∈ (ofGraph graph).outgoing id tag ↔
      edge ∈ graph.edges ∧ edge.source = id ∧ edge.has tag = true := by
  simp only [outgoing_ofGraph, List.mem_filter, decide_eq_true_eq]

/-- The index knows both ends of an edge that leaves a term. -/
theorem contains_target_of_mem_outgoing {id : TermId} {tag : Tag} {edge : Edge}
    (h : edge ∈ (ofGraph graph).outgoing id tag) :
    (ofGraph graph).contains edge.target = true :=
  (contains_ofGraph graph _).mpr (graph.ends_mem edge (mem_outgoing.mp h).1).2

/-- The edges with a tag that enter a term are edges of the graph. -/
theorem mem_incoming {id : TermId} {tag : Tag} {edge : Edge} :
    edge ∈ (ofGraph graph).incoming id tag ↔
      edge ∈ graph.edges ∧ edge.target = id ∧ edge.has tag = true := by
  simp only [incoming_ofGraph, List.mem_filter, decide_eq_true_eq]

/-- Edges with a tag whose keys are distinct: an id is the key of one of them at most. -/
theorem length_filter_key_le_one {key : Edge → TermId} {tag : Tag} {edges : List Edge}
    (hnodup : ((edges.filter (·.has tag)).map key).Nodup) (id : TermId) :
    (edges.filter fun edge => key edge = id ∧ edge.has tag = true).length ≤ 1 := by
  have hcount := List.nodup_iff_count.mp hnodup id
  rw [List.count_eq_countP, List.countP_map, List.countP_filter, List.countP_eq_length_filter]
    at hcount
  simpa [Bool.beq_eq_decide_eq] using hcount

/-- One edge with a tag at most leaves a term if no two of the graph leave the same term. -/
theorem length_outgoing_le_one {tag : Tag}
    (hnodup : ((graph.edges.filter (·.has tag)).map Edge.source).Nodup) (id : TermId) :
    ((ofGraph graph).outgoing id tag).length ≤ 1 := by
  rw [outgoing_ofGraph]
  exact length_filter_key_le_one hnodup id

/-- One edge with a tag at most enters a term if no two of the graph enter the same term. -/
theorem length_incoming_le_one {tag : Tag}
    (hnodup : ((graph.edges.filter (·.has tag)).map Edge.target).Nodup) (id : TermId) :
    ((ofGraph graph).incoming id tag).length ≤ 1 := by
  rw [incoming_ofGraph]
  exact length_filter_key_le_one hnodup id

/-- The step of a term is an edge of the graph that leaves it. -/
theorem step?_mem {id : TermId} {step : Edge} (h : (ofGraph graph).step? id = some step) :
    step ∈ (ofGraph graph).outgoing id .stepsTo :=
  List.mem_of_mem_head? h

/-- A step starts at its term. -/
theorem source_of_step? {id : TermId} {step : Edge} (h : (ofGraph graph).step? id = some step) :
    step.source = id :=
  (mem_outgoing.mp (step?_mem h)).2.1

/-- A term has no next term exactly when no step leaves it. -/
theorem next?_eq_none_iff {index : Index} {id : TermId} :
    index.next? id = none ↔ index.outgoing id .stepsTo = [] := by
  simp [next?, step?]

/-- The index knows every subterm of a term. -/
theorem contains_of_mem_subterms {id subterm : TermId}
    (h : subterm ∈ (ofGraph graph).subterms id) : (ofGraph graph).contains subterm = true := by
  obtain ⟨edge, hedge, rfl⟩ := List.mem_map.mp h
  exact contains_target_of_mem_outgoing hedge

/-! ## Lookups -/

section Lookups

variable (graph)

/-- The step of a term is the first step of the graph that leaves it. -/
theorem step?_ofGraph (id : TermId) :
    (ofGraph graph).step? id =
      graph.edges.find? fun edge => edge.source = id ∧ edge.has .stepsTo = true := by
  rw [step?, outgoing_ofGraph, List.head?_filter]

/-- A step leads from one term to another exactly if some edge of the graph is one. -/
theorem hasStep_ofGraph_iff (source target : TermId) :
    (ofGraph graph).hasStep source target = true ↔
      ∃ edge ∈ graph.edges, edge.source = source ∧ edge.target = target ∧
        edge.has .stepsTo = true := by
  simp only [hasStep, List.any_eq_true, mem_outgoing, decide_eq_true_eq]
  grind

/-- An edge leads from one term to another exactly if some edge of the graph does. -/
theorem hasEdge_ofGraph_iff (source target : TermId) :
    (ofGraph graph).hasEdge source target = true ↔
      ∃ edge ∈ graph.edges, edge.source = source ∧ edge.target = target := by
  simp only [hasEdge, leaving_ofGraph, List.any_eq_true, List.mem_filter, decide_eq_true_eq]
  grind

/-- An edge leaves its source as often as it enters its target. -/
theorem count_outgoing_eq_count_incoming (edge : Edge) (tag : Tag) :
    ((ofGraph graph).outgoing edge.source tag).count edge =
      ((ofGraph graph).incoming edge.target tag).count edge := by
  rw [outgoing_ofGraph, incoming_ofGraph, List.count_eq_countP, List.count_eq_countP,
    List.countP_filter, List.countP_filter]
  apply List.countP_congr
  intro other _
  simp only [Bool.and_eq_true, beq_iff_eq, decide_eq_true_eq]
  constructor
  · rintro ⟨rfl, -, htag⟩
    exact ⟨rfl, rfl, htag⟩
  · rintro ⟨rfl, -, htag⟩
    exact ⟨rfl, rfl, htag⟩

/-- A term is among the subterms of another as often as the other is among its parents. -/
theorem count_subterms_eq_count_parents (subterm parent : TermId) :
    ((ofGraph graph).subterms parent).count subterm =
      ((ofGraph graph).parents subterm).count parent := by
  simp only [subterms, parents, outgoing_ofGraph, incoming_ofGraph, List.count_eq_countP,
    List.countP_map, List.countP_filter]
  apply List.countP_congr
  intro edge _
  simp only [Function.comp_apply, Bool.and_eq_true, beq_iff_eq, decide_eq_true_eq]
  constructor
  · rintro ⟨htarget, hsource, htag⟩
    exact ⟨hsource, htarget, htag⟩
  · rintro ⟨hsource, htarget, htag⟩
    exact ⟨htarget, hsource, htag⟩

/-- A term has another as a subterm exactly if it is a parent of the other. -/
theorem mem_subterms_iff_mem_parents {subterm parent : TermId} :
    subterm ∈ (ofGraph graph).subterms parent ↔ parent ∈ (ofGraph graph).parents subterm := by
  rw [← List.count_pos_iff, ← List.count_pos_iff, count_subterms_eq_count_parents]

end Lookups

/-- Whatever id is asked for, known or not, the index answers what a scan of the edges and terms in
their order answers: the edges with a tag at either end of a term, the first step and where it
leads, subterms and parents, whether a step or any edge leads from one term to another, and the one
term that has an id. An edge leaves its source as often as it enters its target, so subterms and
parents are inverse to each other. -/
theorem lookups_agree_with_scan (graph : Graph) (id : TermId) (tag : Tag) :
    let index := ofGraph graph
    index.outgoing id tag =
        graph.edges.filter (fun edge => edge.source = id ∧ edge.has tag = true) ∧
      index.incoming id tag =
        graph.edges.filter (fun edge => edge.target = id ∧ edge.has tag = true) ∧
      index.next? id =
        (graph.edges.find? fun edge => edge.source = id ∧ edge.has .stepsTo = true).map
          Edge.target ∧
      index.subterms id =
        (graph.edges.filter fun edge => edge.source = id ∧ edge.has .subTerm = true).map
          Edge.target ∧
      index.parents id =
        (graph.edges.filter fun edge => edge.target = id ∧ edge.has .subTerm = true).map
          Edge.source ∧
      (∀ other, index.hasStep id other = true ↔
        ∃ edge ∈ graph.edges, edge.source = id ∧ edge.target = other ∧
          edge.has .stepsTo = true) ∧
      (∀ other, index.hasEdge id other = true ↔
        ∃ edge ∈ graph.edges, edge.source = id ∧ edge.target = other) ∧
      (index.term? id).toList = graph.terms.filter (·.id = id) ∧
      (∀ edge, (index.outgoing edge.source tag).count edge =
        (index.incoming edge.target tag).count edge) ∧
      ∀ other, (index.subterms id).count other = (index.parents other).count id := by
  intro index
  have hnext : index.next? id =
      (graph.edges.find? fun edge => edge.source = id ∧ edge.has .stepsTo = true).map
        Edge.target := by
    rw [next?, step?_ofGraph]
  have hsubterms : index.subterms id =
      (graph.edges.filter fun edge => edge.source = id ∧ edge.has .subTerm = true).map
        Edge.target := by
    rw [subterms, outgoing_ofGraph]
  have hparents : index.parents id =
      (graph.edges.filter fun edge => edge.target = id ∧ edge.has .subTerm = true).map
        Edge.source := by
    rw [parents, incoming_ofGraph]
  exact ⟨outgoing_ofGraph graph id tag, incoming_ofGraph graph id tag, hnext, hsubterms, hparents,
    hasStep_ofGraph_iff graph id, hasEdge_ofGraph_iff graph id, toList_term?_ofGraph graph id,
    fun edge => count_outgoing_eq_count_incoming graph edge tag,
    fun other => count_subterms_eq_count_parents graph other id⟩

end Index

end ReductionStepper
