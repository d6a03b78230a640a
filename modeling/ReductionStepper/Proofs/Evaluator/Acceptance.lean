import Mathlib.Data.List.Nodup
import ReductionStepper.Evaluator.Outcome
import ReductionStepper.Proofs.Fallible
import ReductionStepper.Proofs.Graph.Parts

/-!
# Replies that mean a graph

A reply that gives a graph is `Sound` if it says where the evaluation ended, names no term by an
empty text, gives no two nodes the same id, and knows its root, its last term and both ends of its
edges. Exactly the sound replies mean a graph, which has a term for each node and an edge for each
arrow. What is wrong with the others is told by the first condition that they fail.
-/

namespace ReductionStepper

open Fallible
open Source (Diagnostic)

private theorem TermId.text_injective : Function.Injective TermId.text := by
  rintro ⟨text, _⟩ ⟨_, _⟩ rfl
  rfl

/-- Why an evaluation got stuck, if it did. -/
def Ending.reason? : Ending → Option String
  | .value _ => none
  | .stuck _ reason => some reason

/-- What a graph says of a term. -/
def Term.entry (term : Term) : String × String × Option Source.Span :=
  (term.id.text, term.label, term.span)

/-- What a graph says of an edge. -/
def Edge.entry (edge : Edge) : String × String × String :=
  (edge.source.text, edge.target.text, edge.label)

namespace Reply

/-- The text of an id: a number stands for its decimal digits. -/
def Name.written : Name → String
  | .number n => Nat.repr n.toNat
  | .text content => content

/-- What a reply says of a term. -/
def Node.entry (node : Node) : String × String × Option Source.Span :=
  (node.id.written, node.label, node.span)

/-- What a reply says of an edge. -/
def Arrow.entry (arrow : Arrow) : String × String × String :=
  (arrow.source.written, arrow.target.written, arrow.label)

/-- What a reply says of a graph. -/
structure Sketch where
  nodes : List Node
  edges : List Arrow
  root : Name
  /-- The last term, if the reply names it. -/
  last : Option Name
  /-- Why the evaluation got stuck, if it did. -/
  reason : Option String

/-- What a reply says of a graph, if it gives one. The term that got stuck goes by its first
name. -/
def sketch? : Reply → Option Sketch
  | .value nodes edges root last => some ⟨nodes, edges, root, some last, none⟩
  | .stuck nodes edges root last bad reason => some ⟨nodes, edges, root, last.or bad, some reason⟩
  | .timeout _ => none
  | .parseError _ => none

namespace Sketch

/-- The names in use, in the order in which they are looked at. -/
def names (sketch : Sketch) : List Name :=
  sketch.last.toList ++ (sketch.nodes.map Node.id ++
    sketch.edges.flatMap (fun arrow => [arrow.source, arrow.target]) ++ [sketch.root])

/-- The ids of the nodes. -/
def ids (sketch : Sketch) : List String := sketch.nodes.map (·.id.written)

/-- The conditions for a graph. -/
structure Sound (sketch : Sketch) : Prop where
  last_given : sketch.last ≠ none
  names_ne : ∀ name ∈ sketch.names, name.written ≠ ""
  nodup_ids : sketch.ids.Nodup
  root_mem : sketch.root.written ∈ sketch.ids
  last_mem : ∀ name ∈ sketch.last, name.written ∈ sketch.ids
  ends_mem : ∀ arrow ∈ sketch.edges,
    arrow.source.written ∈ sketch.ids ∧ arrow.target.written ∈ sketch.ids

/-- The parts of a graph are what the reply says, in its order. -/
structure Describes (sketch : Sketch) (terms : List Term) (edges : List Edge) (root : TermId)
    (ending : Ending) : Prop where
  terms_eq : terms.map Term.entry = sketch.nodes.map Node.entry
  edges_eq : edges.map Edge.entry = sketch.edges.map Arrow.entry
  root_eq : root.text = sketch.root.written
  last_eq : some ending.term.text = sketch.last.map Name.written
  reason_eq : ending.reason? = sketch.reason

/-- The place of the last term in the program, if its node has one. -/
def lastSpan? (sketch : Sketch) : Option Source.Span := do
  let last ← sketch.last
  let node ← sketch.nodes.find? (·.id.written = last.written)
  node.span

/-- What the reply has to say about the program: why the evaluation got stuck, at the place of the
term that got stuck. -/
def diagnostics (sketch : Sketch) : List Diagnostic :=
  match sketch.reason, sketch.lastSpan? with
  | some reason, some span => [⟨span.toRange, reason⟩]
  | _, _ => []

/-- The first condition that a reply's graph fails. -/
inductive FirstFault (sketch : Sketch) : ReplyError → Prop where
  | missingStuckTerm (hlast : sketch.last = none) : FirstFault sketch .missingStuckTerm
  /-- Of the last term, the nodes, the edges or the root. -/
  | emptyId {name : Name} (hlast : sketch.last ≠ none) (hname : name ∈ sketch.names)
      (hempty : name.written = "") : FirstFault sketch .emptyId
  /-- With all names in order, what is wrong with the graph. -/
  | inconsistent {terms : List Term} {edges : List Edge} {root : TermId} {ending : Ending}
      {error : GraphError} (hparts : sketch.Describes terms edges root ending)
      (hfault : Graph.FirstFault terms edges root ending error) :
      FirstFault sketch (.inconsistent error)

end Sketch

variable {name : Name} {id : TermId} {error : ReplyError}

/-! ## Names -/

/-- A name has the id with the text that is written for it. -/
theorem Name.termId?_eq (name : Name) : name.termId? = TermId.ofString? name.written := by
  cases name with
  | number n => exact (TermId.ofString?_text (.ofNat n.toNat)).symm
  | text content => rfl

private theorem Name.termId_of_ne (h : name.written ≠ "") :
    name.termId = .ok ⟨name.written, h⟩ := by
  rw [termId, termId?_eq, TermId.ofString?, dif_neg h]

private theorem Name.termId_of_empty (h : name.written = "") : name.termId = .error .emptyId := by
  rw [termId, termId?_eq, TermId.ofString?, dif_pos h]

/-- A name stands for the id with the text that is written. -/
theorem Name.termId_eq_ok_iff : name.termId = .ok id ↔ id.text = name.written := by
  by_cases h : name.written = ""
  · rw [termId_of_empty h, h]
    simp [id.text_ne]
  · rw [termId_of_ne h, Except.ok.injEq, ← TermId.text_injective.eq_iff]
    exact eq_comm

/-- A name stands for no id exactly if an empty text is written. -/
theorem Name.termId_eq_error_iff :
    name.termId = .error error ↔ error = .emptyId ∧ name.written = "" := by
  by_cases h : name.written = ""
  · rw [termId_of_empty h, Except.error.injEq]
    simp [h, eq_comm]
  · rw [termId_of_ne h]
    simp [h]

private theorem mapM_eq_emptyId_iff {α β : Type} {f : α → Except ReplyError β} {Empty : α → Prop}
    (hf : ∀ a error, f a = .error error ↔ error = .emptyId ∧ Empty a) {list : List α} :
    list.mapM f = .error error ↔ error = .emptyId ∧ ∃ a ∈ list, Empty a := by
  constructor
  · intro h
    obtain ⟨good, bad, later, rfl, -, hbad⟩ := mapM_eq_error_iff.mp h
    obtain ⟨rfl, hempty⟩ := (hf bad error).mp hbad
    exact ⟨rfl, bad, by simp, hempty⟩
  · rintro ⟨rfl, a, ha, hempty⟩
    cases h : list.mapM f with
    | error other =>
      obtain ⟨_, bad, -, -, -, hbad⟩ := mapM_eq_error_iff.mp h
      rw [((hf bad other).mp hbad).1]
    | ok results =>
      obtain ⟨b, hb⟩ := exists_ok_of_mapM_eq_ok h a ha
      cases hb.symm.trans ((hf a .emptyId).mpr ⟨rfl, hempty⟩)

/-! ## Nodes and arrows -/

private theorem Node.term_eq_ok_iff {node : Node} {term : Term} :
    node.term = .ok term ↔ term.entry = node.entry := by
  obtain ⟨id, label, span⟩ := term
  simp only [Node.term, bind_eq_ok_iff, Name.termId_eq_ok_iff, pure, Except.pure,
    Except.ok.injEq, Term.mk.injEq, Term.entry, Node.entry, Prod.mk.injEq]
  constructor
  · rintro ⟨_, hid, rfl, rfl, rfl⟩
    exact ⟨hid, rfl, rfl⟩
  · rintro ⟨hid, rfl, rfl⟩
    exact ⟨id, hid, rfl, rfl, rfl⟩

private theorem Node.term_eq_error_iff {node : Node} :
    node.term = .error error ↔ error = .emptyId ∧ node.id.written = "" := by
  simp only [Node.term, bind_eq_error_iff, Name.termId_eq_error_iff, pure, Except.pure,
    reduceCtorEq, and_false, exists_false, or_false]

private theorem Arrow.edge_eq_ok_iff {arrow : Arrow} {edge : Edge} :
    arrow.edge = .ok edge ↔ edge.entry = arrow.entry := by
  obtain ⟨source, target, label⟩ := edge
  simp only [Arrow.edge, bind_eq_ok_iff, Name.termId_eq_ok_iff, pure, Except.pure,
    Except.ok.injEq, Edge.mk.injEq, Edge.entry, Arrow.entry, Prod.mk.injEq]
  constructor
  · rintro ⟨_, hsource, _, htarget, rfl, rfl, rfl⟩
    exact ⟨hsource, htarget, rfl⟩
  · rintro ⟨hsource, htarget, rfl⟩
    exact ⟨source, hsource, target, htarget, rfl, rfl, rfl⟩

private theorem Arrow.edge_eq_error_iff {arrow : Arrow} :
    arrow.edge = .error error ↔
      error = .emptyId ∧ (arrow.source.written = "" ∨ arrow.target.written = "") := by
  simp only [Arrow.edge, bind_eq_error_iff, Name.termId_eq_error_iff, pure, Except.pure,
    reduceCtorEq, and_false, exists_false, or_false]
  constructor
  · rintro (⟨rfl, hempty⟩ | ⟨source, -, rfl, hempty⟩)
    · exact ⟨rfl, .inl hempty⟩
    · exact ⟨rfl, .inr hempty⟩
  · rintro ⟨rfl, hempty | hempty⟩
    · exact .inl ⟨rfl, hempty⟩
    · by_cases hsource : arrow.source.written = ""
      · exact .inl ⟨rfl, hsource⟩
      · exact .inr ⟨_, Name.termId_of_ne hsource, rfl, hempty⟩

/-! ## Graphs -/

/-- The graph of a reply has the parts that the reply describes. -/
theorem graph_eq_ok_iff {nodes : List Node} {edges : List Arrow} {root : Name} {ending : Ending}
    {graph : Graph} :
    Reply.graph nodes edges root ending = .ok graph ↔
      graph.terms.map Term.entry = nodes.map Node.entry ∧
        graph.edges.map Edge.entry = edges.map Arrow.entry ∧ graph.root.text = root.written ∧
        graph.ending = ending := by
  simp only [Reply.graph, bind_eq_ok_iff, mapM_eq_ok_iff_map_eq (fun _ _ => Node.term_eq_ok_iff),
    mapM_eq_ok_iff_map_eq (fun _ _ => Arrow.edge_eq_ok_iff), Name.termId_eq_ok_iff]
  constructor
  · rintro ⟨terms, hterms, edges', hedges, id, hroot, hmade⟩
    split at hmade
    · cases hmade
    · next hparts =>
      cases hmade
      obtain ⟨rfl, rfl, rfl, rfl⟩ := Graph.ofParts_eq_ok_iff.mp hparts
      exact ⟨hterms, hedges, hroot, rfl⟩
  · rintro ⟨hterms, hedges, hroot, rfl⟩
    refine ⟨graph.terms, hterms, graph.edges, hedges, graph.root, hroot, ?_⟩
    rw [Graph.ofParts_parts]
    rfl

/-- A reply whose last term has an id gives no graph if one of the other names is empty, or else if
the parts that it describes do not make one. -/
theorem of_graph_eq_error {nodes : List Node} {edges : List Arrow} {root : Name} {ending : Ending}
    (h : Reply.graph nodes edges root ending = .error error) :
    (error = .emptyId ∧ ∃ name ∈ nodes.map Node.id ++
        edges.flatMap (fun arrow => [arrow.source, arrow.target]) ++ [root], name.written = "") ∨
      ∃ terms edges' id fault, terms.map Term.entry = nodes.map Node.entry ∧
        edges'.map Edge.entry = edges.map Arrow.entry ∧ id.text = root.written ∧
        Graph.FirstFault terms edges' id ending fault ∧ error = .inconsistent fault := by
  simp only [Reply.graph, bind_eq_error_iff, Name.termId_eq_error_iff,
    mapM_eq_emptyId_iff (fun _ _ => Node.term_eq_error_iff),
    mapM_eq_emptyId_iff (fun _ _ => Arrow.edge_eq_error_iff),
    mapM_eq_ok_iff_map_eq (fun _ _ => Node.term_eq_ok_iff),
    mapM_eq_ok_iff_map_eq (fun _ _ => Arrow.edge_eq_ok_iff), Name.termId_eq_ok_iff] at h
  rcases h with ⟨rfl, node, hnode, hempty⟩ | ⟨terms, hterms, h⟩
  · exact .inl ⟨rfl, node.id,
      List.mem_append_left _ (List.mem_append_left _ (List.mem_map_of_mem hnode)), hempty⟩
  rcases h with ⟨rfl, arrow, harrow, hempty⟩ | ⟨edges', hedges, h⟩
  · left
    have hmem {name : Name} (hname : name ∈ [arrow.source, arrow.target]) :
        name ∈ nodes.map Node.id ++ edges.flatMap (fun arrow => [arrow.source, arrow.target]) ++
          [root] :=
      List.mem_append_left _ (List.mem_append_right _ (List.mem_flatMap.mpr ⟨arrow, harrow, hname⟩))
    rcases hempty with hempty | hempty
    · exact ⟨rfl, arrow.source, hmem (by simp), hempty⟩
    · exact ⟨rfl, arrow.target, hmem (by simp), hempty⟩
  rcases h with ⟨rfl, hempty⟩ | ⟨id, hroot, h⟩
  · exact .inl ⟨rfl, root, by simp, hempty⟩
  split at h
  · next fault hparts =>
    cases h
    exact .inr ⟨terms, edges', id, fault, hterms, hedges, hroot,
      Graph.ofParts_eq_error_iff.mp hparts, rfl⟩
  · cases h

/-! ## Sketches -/

private theorem Term.entry_injective : Function.Injective Term.entry := by
  rintro ⟨id, label, span⟩ ⟨id', label', span'⟩ h
  simp only [Term.entry, Prod.mk.injEq, TermId.text_injective.eq_iff] at h
  obtain ⟨rfl, rfl, rfl⟩ := h
  rfl

private theorem Edge.entry_injective : Function.Injective Edge.entry := by
  rintro ⟨source, target, label⟩ ⟨source', target', label'⟩ h
  simp only [Edge.entry, Prod.mk.injEq, TermId.text_injective.eq_iff] at h
  obtain ⟨rfl, rfl, rfl⟩ := h
  rfl

namespace Sketch

/-- The ending of a graph with the last term that the reply names. -/
def endingAt (sketch : Sketch) (term : TermId) : Ending :=
  match sketch.reason with
  | none => .value term
  | some reason => .stuck term reason

@[simp] private theorem term_endingAt (sketch : Sketch) (term : TermId) :
    (sketch.endingAt term).term = term := by
  unfold endingAt
  split <;> rfl

@[simp] private theorem reason?_endingAt (sketch : Sketch) (term : TermId) :
    (sketch.endingAt term).reason? = sketch.reason := by
  unfold endingAt
  split <;> simp_all [Ending.reason?]

private theorem exists_mem_of_map_eq {α β γ : Type} {f : α → γ} {g : β → γ} {made : List α}
    {list : List β} (h : made.map f = list.map g) {b : β} (hb : b ∈ list) :
    ∃ a ∈ made, f a = g b := by
  rw [← List.mem_map, h]
  exact List.mem_map_of_mem hb

variable {sketch : Sketch} {terms : List Term} {edges : List Edge} {root : TermId}
  {ending : Ending}

namespace Describes

variable (h : sketch.Describes terms edges root ending)

include h

private theorem exists_last :
    ∃ name, sketch.last = some name ∧ name.written = ending.term.text := by
  obtain ⟨name, hname, htext⟩ := Option.map_eq_some_iff.mp h.last_eq.symm
  exact ⟨name, hname, htext⟩

private theorem exists_term {node : Node} (hnode : node ∈ sketch.nodes) :
    ∃ term ∈ terms, term.entry = node.entry :=
  exists_mem_of_map_eq h.terms_eq hnode

private theorem exists_edge {arrow : Arrow} (harrow : arrow ∈ sketch.edges) :
    ∃ edge ∈ edges, edge.source.text = arrow.source.written ∧
      edge.target.text = arrow.target.written := by
  obtain ⟨edge, hedge, hentry⟩ := exists_mem_of_map_eq h.edges_eq harrow
  simp only [Edge.entry, Arrow.entry, Prod.mk.injEq] at hentry
  exact ⟨edge, hedge, hentry.1, hentry.2.1⟩

private theorem exists_arrow {edge : Edge} (hedge : edge ∈ edges) :
    ∃ arrow ∈ sketch.edges, edge.source.text = arrow.source.written ∧
      edge.target.text = arrow.target.written := by
  obtain ⟨arrow, harrow, hentry⟩ := exists_mem_of_map_eq h.edges_eq.symm hedge
  simp only [Edge.entry, Arrow.entry, Prod.mk.injEq] at hentry
  exact ⟨arrow, harrow, hentry.1.symm, hentry.2.1.symm⟩

/-- A reply that describes parts names nothing by an empty text. -/
theorem names_ne : ∀ name ∈ sketch.names, name.written ≠ "" := by
  intro name hname
  rcases List.mem_append.mp hname with hlast | hname
  · obtain ⟨last, hlast', htext⟩ := h.exists_last
    rw [hlast', Option.toList_some, List.mem_singleton] at hlast
    rw [hlast, htext]
    exact ending.term.text_ne
  rcases List.mem_append.mp hname with hname | hroot
  · rcases List.mem_append.mp hname with hname | hname
    · obtain ⟨node, hnode, rfl⟩ := List.mem_map.mp hname
      obtain ⟨term, -, hentry⟩ := h.exists_term hnode
      rw [show node.id.written = term.id.text from congrArg Prod.fst hentry.symm]
      exact term.id.text_ne
    · obtain ⟨arrow, harrow, hname⟩ := List.mem_flatMap.mp hname
      obtain ⟨edge, -, hsource, htarget⟩ := h.exists_edge harrow
      simp only [List.mem_cons, List.not_mem_nil, or_false] at hname
      rcases hname with rfl | rfl
      · exact hsource ▸ edge.source.text_ne
      · exact htarget ▸ edge.target.text_ne
  · rw [List.mem_singleton.mp hroot, ← h.root_eq]
    exact root.text_ne

/-- A reply describes the parts of one graph at most. -/
theorem unique {terms' : List Term} {edges' : List Edge} {root' : TermId} {ending' : Ending}
    (h' : sketch.Describes terms' edges' root' ending') :
    terms = terms' ∧ edges = edges' ∧ root = root' ∧ ending = ending' := by
  refine ⟨?_, ?_, ?_, ?_⟩
  · exact Term.entry_injective.list_map (h.terms_eq.trans h'.terms_eq.symm)
  · exact Edge.entry_injective.list_map (h.edges_eq.trans h'.edges_eq.symm)
  · exact TermId.text_injective (h.root_eq.trans h'.root_eq.symm)
  · have hterm := TermId.text_injective (Option.some.inj (h.last_eq.trans h'.last_eq.symm))
    have hreason := h.reason_eq.trans h'.reason_eq.symm
    cases ending <;> cases ending' <;> simp_all [Ending.term, Ending.reason?]

private theorem ids_eq : sketch.ids = (terms.map Term.id).map TermId.text := by
  have hids := congrArg (List.map Prod.fst) h.terms_eq
  rw [List.map_map, List.map_map] at hids
  rw [List.map_map]
  exact hids.symm

private theorem mem_ids_iff {id : TermId} : id.text ∈ sketch.ids ↔ id ∈ terms.map Term.id := by
  rw [h.ids_eq, List.mem_map_of_injective TermId.text_injective]

/-- The conditions on a reply are the conditions on the parts that it describes. -/
theorem sound_iff :
    sketch.Sound ↔
      (terms.map Term.id).Nodup ∧ root ∈ terms.map Term.id ∧ ending.term ∈ terms.map Term.id ∧
        ∀ edge ∈ edges, edge.source ∈ terms.map Term.id ∧ edge.target ∈ terms.map Term.id := by
  have hnodup : sketch.ids.Nodup ↔ (terms.map Term.id).Nodup := by
    rw [h.ids_eq, List.nodup_map_iff TermId.text_injective]
  obtain ⟨last, hlast, htext⟩ := h.exists_last
  constructor
  · intro hsound
    refine ⟨hnodup.mp hsound.nodup_ids, ?_, ?_, ?_⟩
    · rw [← h.mem_ids_iff, h.root_eq]
      exact hsound.root_mem
    · rw [← h.mem_ids_iff, ← htext]
      exact hsound.last_mem last hlast
    · intro edge hedge
      obtain ⟨arrow, harrow, hsource, htarget⟩ := h.exists_arrow hedge
      rw [← h.mem_ids_iff, ← h.mem_ids_iff, hsource, htarget]
      exact hsound.ends_mem arrow harrow
  · rintro ⟨hids, hroot, hending, hends⟩
    refine ⟨by simp [hlast], h.names_ne, hnodup.mpr hids, ?_, ?_, ?_⟩
    · rw [← h.root_eq]
      exact h.mem_ids_iff.mpr hroot
    · intro name hname
      obtain rfl : last = name := Option.some.inj (hlast.symm.trans hname)
      rw [htext]
      exact h.mem_ids_iff.mpr hending
    · intro arrow harrow
      obtain ⟨edge, hedge, hsource, htarget⟩ := h.exists_edge harrow
      rw [← hsource, ← htarget]
      exact (hends edge hedge).imp h.mem_ids_iff.mpr h.mem_ids_iff.mpr

end Describes

end Sketch

/-! ## Outcomes -/

variable {reply : Reply} {sketch : Sketch}

private theorem outcome_eq (hsketch : reply.sketch? = some sketch) :
    reply.outcome =
      match sketch.last with
      | none => .error .missingStuckTerm
      | some name => do
        let term ← name.termId
        let graph ← Reply.graph sketch.nodes sketch.edges sketch.root (sketch.endingAt term)
        return .evaluated graph
          ((sketch.reason.map (stuckDiagnostics graph term)).getD []) := by
  cases reply with
  | value nodes edges root last =>
    cases hsketch
    rfl
  | stuck nodes edges root last bad reason =>
    cases hsketch
    cases hlast : last.or bad with
    | none => simp only [outcome, hlast]; rfl
    | some name => simp only [outcome, hlast]; rfl
  | timeout => cases hsketch
  | parseError => cases hsketch

/-- The last term of a graph is found in the program where its node is. -/
theorem Sketch.Describes.span_eq {terms : List Term} {edges : List Edge} {root : TermId}
    {ending : Ending} (h : sketch.Describes terms edges root ending) :
    (terms.find? (·.id = ending.term)).bind Term.span = sketch.lastSpan? := by
  obtain ⟨last, hlast, htext⟩ := h.exists_last
  have hentries := congrArg (List.find? (·.1 = last.written)) h.terms_eq
  rw [List.find?_map, List.find?_map] at hentries
  have hterms : (fun entry => decide (entry.1 = last.written)) ∘ Term.entry =
      fun term => decide (term.id = ending.term) := by
    funext term
    simp [Term.entry, htext, TermId.text_injective.eq_iff]
  have hspans := congrArg (Option.bind · (·.2.2)) hentries
  rw [hterms, Option.bind_map, Option.bind_map] at hspans
  rw [Sketch.lastSpan?, hlast]
  exact hspans

/-- A reply with an outcome means a graph with the parts that it describes. -/
theorem evaluated_of_outcome_eq_ok (hsketch : reply.sketch? = some sketch) {outcome : Outcome}
    (h : reply.outcome = .ok outcome) :
    ∃ graph, outcome = .evaluated graph sketch.diagnostics ∧
      sketch.Describes graph.terms graph.edges graph.root graph.ending := by
  rw [outcome_eq hsketch] at h
  split at h
  · cases h
  next last hlast =>
  simp only [bind_eq_ok_iff, pure, Except.pure, Except.ok.injEq] at h
  obtain ⟨term, hterm, graph, hgraph, rfl⟩ := h
  obtain ⟨hterms, hedges, hroot, hending⟩ := graph_eq_ok_iff.mp hgraph
  have hdescribes : sketch.Describes graph.terms graph.edges graph.root graph.ending := by
    refine ⟨hterms, hedges, hroot, ?_, ?_⟩
    · rw [hending, Sketch.term_endingAt, hlast, Option.map_some, Name.termId_eq_ok_iff.mp hterm]
    · rw [hending, Sketch.reason?_endingAt]
  refine ⟨graph, ?_, hdescribes⟩
  have hspan := hdescribes.span_eq
  rw [hending, Sketch.term_endingAt] at hspan
  unfold Sketch.diagnostics
  cases sketch.reason with
  | none => rfl
  | some reason =>
    simp only [Option.map_some, Option.getD_some, stuckDiagnostics, hspan]
    cases sketch.lastSpan? <;> rfl

/-- A parse error is what a reply of its own kind says, and comes with the diagnostic for it. -/
theorem eq_parseError_of_outcome {message : String} {d : Source.Diagnostic}
    (h : reply.outcome = .ok (.parseError message d)) :
    reply = .parseError message ∧ d = .parseError message := by
  cases hsketch : reply.sketch? with
  | none => cases reply with
    | value | stuck => cases hsketch
    | timeout => cases h
    | parseError _ =>
      cases h
      exact ⟨rfl, rfl⟩
  | some sketch =>
    obtain ⟨_, heq, -⟩ := evaluated_of_outcome_eq_ok hsketch h
    cases heq

/-- A reply without an outcome fails with the first condition that its graph fails. -/
theorem firstFault_of_outcome_eq_error (hsketch : reply.sketch? = some sketch)
    (h : reply.outcome = .error error) : sketch.FirstFault error := by
  rw [outcome_eq hsketch] at h
  split at h
  · next hlast =>
    cases h
    exact .missingStuckTerm hlast
  next last hlast =>
  have hgiven : sketch.last ≠ none := by simp [hlast]
  simp only [bind_eq_error_iff, pure, Except.pure, reduceCtorEq, and_false, exists_false, or_false,
    Name.termId_eq_error_iff] at h
  rcases h with ⟨rfl, hempty⟩ | ⟨term, hterm, hgraph⟩
  · refine .emptyId hgiven (List.mem_append_left _ ?_) hempty
    rw [hlast, Option.toList_some, List.mem_singleton]
  rcases of_graph_eq_error hgraph with ⟨rfl, name, hname, hempty⟩ |
    ⟨terms, edges, root, fault, hterms, hedges, hroot, hfault, rfl⟩
  · exact .emptyId hgiven (List.mem_append_right _ hname) hempty
  · refine .inconsistent ⟨hterms, hedges, hroot, ?_, Sketch.reason?_endingAt sketch term⟩ hfault
    rw [Sketch.term_endingAt, hlast, Option.map_some, Name.termId_eq_ok_iff.mp hterm]

/-- A graph fails one condition first. -/
theorem Sketch.FirstFault.unique {other : ReplyError} (h : sketch.FirstFault error)
    (h' : sketch.FirstFault other) : error = other := by
  cases h with
  | missingStuckTerm hlast =>
    cases h' with
    | missingStuckTerm => rfl
    | emptyId hgiven => exact absurd hlast hgiven
    | inconsistent hparts =>
      obtain ⟨last, hlast', -⟩ := hparts.exists_last
      simp [hlast] at hlast'
  | emptyId hgiven hname hempty =>
    cases h' with
    | missingStuckTerm hlast => exact absurd hlast hgiven
    | emptyId => rfl
    | inconsistent hparts => exact absurd hempty (hparts.names_ne _ hname)
  | inconsistent hparts hfault =>
    cases h' with
    | missingStuckTerm hlast =>
      obtain ⟨last, hlast', -⟩ := hparts.exists_last
      simp [hlast] at hlast'
    | emptyId _ hname hempty => exact absurd hempty (hparts.names_ne _ hname)
    | inconsistent hparts' hfault' =>
      obtain ⟨rfl, rfl, rfl, rfl⟩ := hparts.unique hparts'
      rw [← Graph.ofParts_eq_error_iff] at hfault hfault'
      rw [Except.error.inj (hfault.symm.trans hfault')]

/-- A graph with all its conditions met fails none. -/
theorem Sketch.Sound.not_firstFault (h : sketch.Sound) : ¬sketch.FirstFault error := by
  intro hfault
  cases hfault with
  | missingStuckTerm hlast => exact h.last_given hlast
  | emptyId _ hname hempty => exact h.names_ne _ hname hempty
  | inconsistent hparts hfault =>
    obtain ⟨hnodup, hroot, hending, hends⟩ := hparts.sound_iff.mp h
    exact hfault.elim hnodup hroot hending hends

/-- A reply that describes the parts of a graph is sound. -/
theorem Sketch.Describes.sound {graph : Graph}
    (h : sketch.Describes graph.terms graph.edges graph.root graph.ending) : sketch.Sound :=
  h.sound_iff.mpr ⟨graph.nodup_ids, graph.root_mem, graph.ending_mem, graph.ends_mem⟩

/-- What a reply that gives a graph means: a graph exactly if the reply is sound, with the parts
that it describes and a diagnostic at most where it got stuck, and otherwise the first condition
that fails. -/
theorem outcome_determined (hsketch : reply.sketch? = some sketch) :
    ((∃ graph diagnostics, reply.outcome = .ok (.evaluated graph diagnostics)) ↔ sketch.Sound) ∧
      (∀ outcome, reply.outcome = .ok outcome →
        ∃ graph, outcome = .evaluated graph sketch.diagnostics ∧
          sketch.Describes graph.terms graph.edges graph.root graph.ending) ∧
      ∀ error, reply.outcome = .error error ↔ sketch.FirstFault error := by
  refine ⟨⟨?_, ?_⟩, fun _ => evaluated_of_outcome_eq_ok hsketch,
    fun error => ⟨firstFault_of_outcome_eq_error hsketch, ?_⟩⟩
  · rintro ⟨graph, diagnostics, h⟩
    obtain ⟨graph, -, hdescribes⟩ := evaluated_of_outcome_eq_ok hsketch h
    exact hdescribes.sound
  · intro hsound
    cases h : reply.outcome with
    | ok outcome =>
      obtain ⟨graph, rfl, -⟩ := evaluated_of_outcome_eq_ok hsketch h
      exact ⟨graph, _, rfl⟩
    | error error =>
      exact absurd (firstFault_of_outcome_eq_error hsketch h) hsound.not_firstFault
  · intro hfault
    cases h : reply.outcome with
    | ok outcome =>
      obtain ⟨graph, -, hdescribes⟩ := evaluated_of_outcome_eq_ok hsketch h
      exact absurd hfault hdescribes.sound.not_firstFault
    | error other => rw [(firstFault_of_outcome_eq_error hsketch h).unique hfault]

/-- The term that got stuck is named by its second name only, and by a number where its node has a
text. -/
theorem outcome_determined_secondName :
    ∃ graph,
      (stuck [⟨.number 1, "1 + true", none⟩, ⟨.text "2", "true", some ⟨1, 5, 1, 9⟩⟩]
          [⟨.text "1", .number 2, "SubTerm"⟩] (.number 1) none (some (.number 2))
          "expected a number").outcome =
        .ok (.evaluated graph [⟨⟨⟨0, 4⟩, ⟨0, 9⟩⟩, "expected a number"⟩]) := by
  have hsketch : (stuck [⟨.number 1, "1 + true", none⟩, ⟨.text "2", "true", some ⟨1, 5, 1, 9⟩⟩]
      [⟨.text "1", .number 2, "SubTerm"⟩] (.number 1) none (some (.number 2))
      "expected a number").sketch? =
        some ⟨_, _, .number 1, some (.number 2), some "expected a number"⟩ := rfl
  obtain ⟨haccepted, hgraph, -⟩ := outcome_determined hsketch
  obtain ⟨graph, diagnostics, h⟩ := haccepted.mpr
    ⟨by decide, by decide, by decide, by decide, by decide, by decide⟩
  obtain ⟨graph, heq, -⟩ := hgraph _ h
  exact ⟨graph, h.trans (congrArg Except.ok heq)⟩

end Reply

end ReductionStepper
