import Std.Data.TreeMap
import ReductionStepper.Graph

/-!
# The index of a graph

The index of a graph finds a term by its id and the edges at a term without going through the
whole graph. The edges at a term keep the order of the graph. An id that the graph does not know
has no edges.
-/

namespace ReductionStepper

/-- A graph with its terms by id and its edges by either end. -/
structure Index where
  graph : Graph
  byId : Std.TreeMap TermId Term
  bySource : Std.TreeMap TermId (List Edge)
  byTarget : Std.TreeMap TermId (List Edge)

namespace Index

/-- The edges under their ids by `key`, each list in the order of the edges. -/
def group (key : Edge → TermId) (edges : List Edge) : Std.TreeMap TermId (List Edge) :=
  edges.foldr (fun edge table => table.insert (key edge) (edge :: table.getD (key edge) [])) ∅

/-- The index of a graph. -/
def ofGraph (graph : Graph) : Index :=
  { graph
    byId := graph.terms.foldl (fun table term => table.insert term.id term) ∅
    bySource := group Edge.source graph.edges
    byTarget := group Edge.target graph.edges }

/-- The root of the graph. -/
def root (index : Index) : TermId := index.graph.root

/-- How the evaluation ended. -/
def ending (index : Index) : Ending := index.graph.ending

/-- The term with an id. -/
def term? (index : Index) (id : TermId) : Option Term := index.byId[id]?

/-- Whether the graph has a term with this id. -/
def contains (index : Index) (id : TermId) : Bool := index.byId.contains id

/-- All edges that leave a term. -/
def leaving (index : Index) (id : TermId) : List Edge := index.bySource.getD id []

/-- All edges that enter a term. -/
def entering (index : Index) (id : TermId) : List Edge := index.byTarget.getD id []

/-- The edges with a tag that leave a term. -/
def outgoing (index : Index) (id : TermId) (tag : Tag) : List Edge :=
  (index.leaving id).filter (·.has tag)

/-- The edges with a tag that enter a term. -/
def incoming (index : Index) (id : TermId) (tag : Tag) : List Edge :=
  (index.entering id).filter (·.has tag)

/-- The step that a term takes: of several the first. -/
def step? (index : Index) (id : TermId) : Option Edge := (index.outgoing id .stepsTo).head?

/-- The term that a term steps to. -/
def next? (index : Index) (id : TermId) : Option TermId := (index.step? id).map Edge.target

/-- The subterms of a term. -/
def subterms (index : Index) (id : TermId) : List TermId :=
  (index.outgoing id .subTerm).map Edge.target

/-- The terms that a term is a subterm of. -/
def parents (index : Index) (id : TermId) : List TermId :=
  (index.incoming id .subTerm).map Edge.source

/-- Whether a step leads from one term to another. -/
def hasStep (index : Index) (source target : TermId) : Bool :=
  (index.outgoing source .stepsTo).any (·.target = target)

/-- Whether an edge of any kind leads from one term to another. -/
def hasEdge (index : Index) (source target : TermId) : Bool :=
  (index.leaving source).any (·.target = target)

end Index

end ReductionStepper
