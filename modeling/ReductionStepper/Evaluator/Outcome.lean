import ReductionStepper.Evaluator.Reply
import ReductionStepper.Graph
import ReductionStepper.Json.Writer
import ReductionStepper.Source.Diagnostic

/-!
# Outcomes of a check

What a reply means: a reduction graph, perhaps with a diagnostic where it got stuck, a timeout, or a
parse error with its diagnostic. A reply whose ids are empty or whose graph is inconsistent means
nothing; the first fault in a fixed order is reported.
-/

namespace ReductionStepper

open Source (Diagnostic)

/-- The outcome of a check. -/
inductive Outcome where
  | evaluated (graph : Graph) (diagnostics : List Diagnostic)
  | timedOut (input : String)
  | parseError (message : String) (diagnostic : Diagnostic)

/-- Why a reply has no outcome. -/
inductive ReplyError where
  | emptyId
  | inconsistent (error : GraphError)
  | missingStuckTerm
  deriving DecidableEq

/-- The text of an error. -/
def ReplyError.message : ReplyError → String
  | .emptyId => s!"invalid term id: {emptyIdMessage}"
  | .inconsistent error => s!"inconsistent reduction graph: {error.message}"
  | .missingStuckTerm => "stuck response does not name the stuck term"

namespace Reply

/-- The id that a name stands for. -/
def Name.termId (name : Name) : Except ReplyError TermId :=
  match name.termId? with
  | none => .error .emptyId
  | some id => .ok id

/-- The term of a graph that a reply gives. -/
def Node.term (node : Node) : Except ReplyError Term := do
  return ⟨← node.id.termId, node.label, node.span⟩

/-- The edge of a graph that a reply gives. -/
def Arrow.edge (arrow : Arrow) : Except ReplyError Edge := do
  return ⟨← arrow.source.termId, ← arrow.target.termId, arrow.label⟩

/-- The graph of a reply. The ids of the terms are looked at first, then those of the edges, then
the root, then the graph as a whole. -/
def graph (nodes : List Node) (edges : List Arrow) (root : Name) (ending : Ending) :
    Except ReplyError Graph := do
  let terms ← nodes.mapM Node.term
  let edges ← edges.mapM Arrow.edge
  let root ← root.termId
  match Graph.ofParts terms edges root ending with
  | .error error => throw (.inconsistent error)
  | .ok graph => return graph

/-- The diagnostic of a stuck term, if the term has a place in the program. -/
def stuckDiagnostics (graph : Graph) (term : TermId) (reason : String) : List Diagnostic :=
  match (graph.terms.find? (·.id = term)).bind Term.span with
  | none => []
  | some span => [.stuck span reason]

/-- The input that a timeout names: a text as it is, any other value as JSON. -/
def timeoutInput : Option Json → String
  | none => ""
  | some (.string content) => content
  | some found => found.compact

/-- The outcome of a reply. -/
def outcome : Reply → Except ReplyError Outcome
  | .value nodes edges root last => do
    let last ← last.termId
    return .evaluated (← graph nodes edges root (.value last)) []
  | .stuck nodes edges root last bad reason => do
    match last.or bad with
    | none => throw .missingStuckTerm
    | some name =>
      let term ← name.termId
      let graph ← graph nodes edges root (.stuck term reason)
      return .evaluated graph (stuckDiagnostics graph term reason)
  | .timeout root => return .timedOut (timeoutInput root)
  | .parseError error => return .parseError error (.parseError error)

end Reply

end ReductionStepper
