import ReductionStepper.Evaluator.Outcome
import ReductionStepper.Proofs.Fallible
import ReductionStepper.Proofs.Workbench.Delivery

/-!
# Graphs as replies

An evaluator can answer with any graph there is: the reply that lists the terms and edges of a graph
means that graph.
-/

namespace ReductionStepper

namespace Reply

/-- A term as a reply gives it. -/
def Node.ofTerm (term : Term) : Node := ⟨.text term.id.text, term.label, term.span⟩

/-- An edge as a reply gives it. -/
def Arrow.ofEdge (edge : Edge) : Arrow :=
  ⟨.text edge.source.text, .text edge.target.text, edge.label⟩

/-- The reply that lists a graph. -/
def listing (graph : Graph) : Reply :=
  let nodes := graph.terms.map Node.ofTerm
  let edges := graph.edges.map Arrow.ofEdge
  match graph.ending with
  | .value last => .value nodes edges (.text graph.root.text) (.text last.text)
  | .stuck last reason =>
    .stuck nodes edges (.text graph.root.text) (some (.text last.text)) none reason

@[simp] private theorem Name.termId_text (id : TermId) : (Name.text id.text).termId = .ok id := by
  simp [termId, termId?]

private theorem Node.term_ofTerm (term : Term) : (ofTerm term).term = .ok term := by
  rw [Node.term, ofTerm, Name.termId_text]
  rfl

private theorem Arrow.edge_ofEdge (edge : Edge) : (ofEdge edge).edge = .ok edge := by
  rw [Arrow.edge, ofEdge, Name.termId_text, Name.termId_text]
  rfl

private theorem graph_ofTerm_ofEdge (graph : Graph) :
    Reply.graph (graph.terms.map Node.ofTerm) (graph.edges.map Arrow.ofEdge)
      (.text graph.root.text) graph.ending = .ok graph := by
  rw [Reply.graph, Fallible.mapM_map_eq_ok Node.term_ofTerm,
    Fallible.mapM_map_eq_ok Arrow.edge_ofEdge,
    Name.termId_text]
  simp only [bind, Except.bind, Graph.ofParts_parts]
  rfl

/-- The reply that lists a graph means that graph. -/
theorem outcome_listing (graph : Graph) :
    ∃ diagnostics, (listing graph).outcome = .ok (.evaluated graph diagnostics) := by
  have hgraph := graph_ofTerm_ofEdge graph
  cases hending : graph.ending with
  | value last =>
    rw [hending] at hgraph
    refine ⟨[], ?_⟩
    simp only [listing, hending, outcome, Name.termId_text, hgraph, bind, Except.bind]
    rfl
  | stuck last reason =>
    rw [hending] at hgraph
    refine ⟨stuckDiagnostics graph last reason, ?_⟩
    simp only [listing, hending, outcome, Option.some_or, Name.termId_text, hgraph, bind,
      Except.bind]
    rfl

end Reply

/-- The reply that lists a well-formed graph is a well-formed result. -/
theorem CheckResult.wellFormed_listing {graph : Graph} (hgraph : graph.WellFormed) :
    CheckResult.WellFormed (.ok (Reply.listing graph)) := by
  rintro _ other diagnostics ⟨⟩ houtcome
  obtain ⟨_, hlisting⟩ := Reply.outcome_listing graph
  rw [hlisting] at houtcome
  cases houtcome
  exact hgraph

end ReductionStepper
