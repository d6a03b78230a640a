import Mathlib.Data.List.Perm.Basic
import ReductionStepper.Proofs.Graph.Mirror

/-!
# Renamed and reordered graphs

Two ways to write the same evaluation down differently: with other ids for its terms, and with its
terms and edges in another order. Both graphs mirror the one they are made from.
-/

namespace ReductionStepper

namespace Graph

/-! ## Other ids -/

private theorem ids_map_rename (f : TermId → TermId) (terms : List Term) :
    (terms.map (Term.rename f)).map Term.id = (terms.map Term.id).map f := by
  rw [List.map_map, List.map_map]
  rfl

/-- The graph with its terms renamed. The renaming tells the terms apart. -/
def rename (f : TermId → TermId) (graph : Graph) (hf : Set.InjOn f {id | id ∈ graph.ids}) :
    Graph where
  terms := graph.terms.map (Term.rename f)
  edges := graph.edges.map (Edge.rename f)
  root := f graph.root
  ending := graph.ending.rename f
  nodup_ids := by
    rw [ids_map_rename]
    exact graph.nodup_ids.map_on fun id hid other hother => hf hid hother
  root_mem := by
    rw [ids_map_rename]
    exact List.mem_map_of_mem graph.root_mem
  ending_mem := by
    rw [ids_map_rename, Ending.term_rename]
    exact List.mem_map_of_mem graph.ending_mem
  ends_mem := by
    rw [ids_map_rename]
    intro renamed hrenamed
    obtain ⟨edge, hedge, rfl⟩ := List.mem_map.mp hrenamed
    exact (graph.ends_mem edge hedge).imp List.mem_map_of_mem List.mem_map_of_mem

section Rename

open Index

variable {f : TermId → TermId} {graph : Graph} (hf : Set.InjOn f {id | id ∈ graph.ids})
  {id source target : TermId} {tag : Tag}

private theorem term?_rename (hid : id ∈ graph.ids) :
    (ofGraph (graph.rename f hf)).term? (f id) =
      ((ofGraph graph).term? id).map (Term.rename f) := by
  rw [term?_ofGraph, term?_ofGraph, rename, List.find?_map]
  congr 1
  refine List.find?_congr fun term hterm => ?_
  exact decide_eq_decide.mpr (hf.eq_iff (List.mem_map_of_mem hterm) hid)

private theorem leaving_rename (hid : id ∈ graph.ids) :
    (ofGraph (graph.rename f hf)).leaving (f id) =
      ((ofGraph graph).leaving id).map (Edge.rename f) := by
  rw [leaving_ofGraph, leaving_ofGraph, rename, List.filter_map]
  congr 1
  refine List.filter_congr fun edge hedge => ?_
  exact decide_eq_decide.mpr (hf.eq_iff (graph.ends_mem edge hedge).1 hid)

private theorem entering_rename (hid : id ∈ graph.ids) :
    (ofGraph (graph.rename f hf)).entering (f id) =
      ((ofGraph graph).entering id).map (Edge.rename f) := by
  rw [entering_ofGraph, entering_ofGraph, rename, List.filter_map]
  congr 1
  refine List.filter_congr fun edge hedge => ?_
  exact decide_eq_decide.mpr (hf.eq_iff (graph.ends_mem edge hedge).2 hid)

private theorem outgoing_rename (hid : id ∈ graph.ids) :
    (ofGraph (graph.rename f hf)).outgoing (f id) tag =
      ((ofGraph graph).outgoing id tag).map (Edge.rename f) := by
  rw [outgoing, leaving_rename hf hid, List.filter_map]
  rfl

private theorem incoming_rename (hid : id ∈ graph.ids) :
    (ofGraph (graph.rename f hf)).incoming (f id) tag =
      ((ofGraph graph).incoming id tag).map (Edge.rename f) := by
  rw [incoming, entering_rename hf hid, List.filter_map]
  rfl

include hf in
/-- Renamed edges lead to a renamed term where the edges lead to the term. -/
theorem any_target_rename {edges : List Edge} (hedges : ∀ edge ∈ edges, edge ∈ graph.edges)
    (htarget : target ∈ graph.ids) :
    (edges.map (Edge.rename f)).any (·.target = f target) = edges.any (·.target = target) := by
  have hsame : ∀ edge ∈ edges, f edge.target = f target ↔ edge.target = target :=
    fun edge hedge => hf.eq_iff (graph.ends_mem edge (hedges edge hedge)).2 htarget
  rw [Bool.eq_iff_iff]
  simp only [List.any_eq_true, List.mem_map, exists_exists_and_eq_and, Edge.target_rename,
    decide_eq_true_eq]
  exact exists_congr fun edge => and_congr_right (hsame edge)

/-- A renamed graph mirrors the graph. -/
theorem mirrors_rename : graph.Mirrors f (graph.rename f hf) where
  injOn := by simpa only [contains_ofGraph] using hf
  root_eq := rfl
  ending_eq := rfl
  length_edges := List.length_map _
  term?_eq id hid := term?_rename hf ((contains_ofGraph graph id).mp hid)
  step?_eq id hid := by
    rw [step?, outgoing_rename hf ((contains_ofGraph graph id).mp hid), List.head?_map]
    rfl
  subterms_eq id hid := by
    rw [subterms, outgoing_rename hf ((contains_ofGraph graph id).mp hid), subterms, List.map_map,
      List.map_map]
    rfl
  mem_parents_iff id parent hid hparent := by
    have hknown := (contains_ofGraph graph parent).mp hparent
    rw [parents, parents, incoming_rename hf ((contains_ofGraph graph id).mp hid)]
    simp only [List.map_map, List.mem_map, Function.comp_apply, Edge.source_rename]
    refine exists_congr fun edge => and_congr_right fun hedge => ?_
    have hmem := List.mem_of_mem_filter hedge
    rw [entering_ofGraph] at hmem
    exact hf.eq_iff (graph.ends_mem edge (List.mem_of_mem_filter hmem)).1 hknown
  calls_eq id hid := by
    rw [outgoing_rename hf ((contains_ofGraph graph id).mp hid), List.any_map]
    rfl
  hasStep_eq source target hsource htarget := by
    rw [hasStep, outgoing_rename hf ((contains_ofGraph graph source).mp hsource)]
    refine any_target_rename hf (fun edge hedge => ?_) ((contains_ofGraph graph target).mp htarget)
    exact (mem_outgoing.mp hedge).1
  hasEdge_eq source target hsource htarget := by
    rw [hasEdge, leaving_rename hf ((contains_ofGraph graph source).mp hsource)]
    refine any_target_rename hf (fun edge hedge => ?_) ((contains_ofGraph graph target).mp htarget)
    rw [leaving_ofGraph] at hedge
    exact List.mem_of_mem_filter hedge

end Rename

/-! ## Another order -/

/-- The same graph in another order: its terms and edges are permuted, but the edges from a term to
its subterms keep their order. No term has several steps. -/
structure Reordered (graph other : Graph) : Prop where
  terms : other.terms.Perm graph.terms
  edges : other.edges.Perm graph.edges
  root_eq : other.root = graph.root
  ending_eq : other.ending = graph.ending
  subterms_eq : ∀ id ∈ graph.ids,
    other.edges.filter (fun edge => edge.source = id ∧ edge.has .subTerm) =
      graph.edges.filter (fun edge => edge.source = id ∧ edge.has .subTerm)
  step_unique : ∀ id ∈ graph.ids,
    (graph.edges.filter fun edge => edge.source = id ∧ edge.has .stepsTo).length ≤ 1

section Reordered

open Index

variable {graph other : Graph} (h : graph.Reordered other) {node : TermId} {tag : Tag}

include h

private theorem Reordered.leaving_perm :
    ((ofGraph other).leaving node).Perm ((ofGraph graph).leaving node) := by
  rw [leaving_ofGraph, leaving_ofGraph]
  exact h.edges.filter _

private theorem Reordered.outgoing_perm :
    ((ofGraph other).outgoing node tag).Perm ((ofGraph graph).outgoing node tag) :=
  h.leaving_perm.filter _

private theorem Reordered.incoming_perm :
    ((ofGraph other).incoming node tag).Perm ((ofGraph graph).incoming node tag) := by
  rw [incoming, incoming, entering_ofGraph, entering_ofGraph]
  exact (h.edges.filter _).filter _

/-- Of the steps of a term, of which there is at most one, none gets another place. -/
theorem Reordered.outgoing_stepsTo (hnode : node ∈ graph.ids) :
    (ofGraph other).outgoing node .stepsTo = (ofGraph graph).outgoing node .stepsTo := by
  have hperm : ((ofGraph other).outgoing node .stepsTo).Perm _ := h.outgoing_perm
  have hunique : ((ofGraph graph).outgoing node .stepsTo).length ≤ 1 := by
    rw [outgoing_ofGraph]
    exact h.step_unique node hnode
  cases hsteps : (ofGraph graph).outgoing node .stepsTo with
  | nil => exact List.perm_nil.mp (hsteps ▸ hperm)
  | cons step later =>
    obtain rfl : later = [] := by simpa [hsteps] using hunique
    exact List.perm_singleton.mp (hsteps ▸ hperm)

private theorem Reordered.outgoing_subTerm (hnode : node ∈ graph.ids) :
    (ofGraph other).outgoing node .subTerm = (ofGraph graph).outgoing node .subTerm := by
  rw [outgoing_ofGraph, outgoing_ofGraph]
  exact h.subterms_eq node hnode

/-- A reordered graph mirrors the graph, with all terms keeping their ids. -/
theorem Reordered.mirrors : graph.Mirrors id other where
  injOn := Set.injOn_id _
  root_eq := h.root_eq
  ending_eq := by rw [h.ending_eq, Ending.rename_id]
  length_edges := h.edges.length_eq
  term?_eq node hnode := by
    rw [term?_ofGraph, term?_ofGraph, id_eq, List.find?_eq_find?_of_perm h.terms]
    · exact Option.map_id'.symm
    · intro term hterm term' hterm'
      rw [Set.mem_ofPred_eq, decide_eq_true_eq] at hterm hterm'
      exact List.inj_on_of_nodup_map other.nodup_ids hterm.1 hterm'.1
        (hterm.2.trans hterm'.2.symm)
  step?_eq node hnode := by
    rw [step?, step?, id_eq, h.outgoing_stepsTo ((contains_ofGraph graph node).mp hnode)]
    exact Option.map_id'.symm
  subterms_eq node hnode := by
    rw [subterms, subterms, id_eq, h.outgoing_subTerm ((contains_ofGraph graph node).mp hnode),
      List.map_id]
  mem_parents_iff node parent hnode hparent := (h.incoming_perm.map _).mem_iff
  calls_eq node hnode := h.outgoing_perm.any_eq
  hasStep_eq source target hsource htarget := h.outgoing_perm.any_eq
  hasEdge_eq source target hsource htarget := h.leaving_perm.any_eq

end Reordered

end Graph

end ReductionStepper
