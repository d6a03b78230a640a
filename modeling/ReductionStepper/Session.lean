import ReductionStepper.Plan

/-!
# Sessions

A session steps through one reduction graph: it holds the graph's index, the view and perhaps a
selection. Whatever changes the view drops the selection, so what a selection has planned always
fits the view as it is.
-/

namespace ReductionStepper

/-- A selected term with what its actions would reveal and its place in the program. -/
structure Selection where
  term : TermId
  plan : Plan
  highlight : Option Source.Range
  deriving DecidableEq

/-- A session on a reduction graph. -/
structure Session where
  index : Index
  view : View
  selection : Option Selection
  /-- The name of the check that gave the graph, if it has one. -/
  check : Option String := none

namespace Session

/-- A fresh session on a graph. -/
def start (graph : Graph) : Session :=
  let index := Index.ofGraph graph
  { index, view := View.start index, selection := none }

/-- The session of the check with the given name. -/
def named (session : Session) (check : String) : Session := { session with check := some check }

/-- How the evaluation ended. -/
def ending (session : Session) : Ending := session.index.ending

/-- The selected term. -/
def selected? (session : Session) : Option TermId := session.selection.map Selection.term

/-- What the actions would reveal; nothing without a selection. -/
def plan (session : Session) : Plan := (session.selection.map Selection.plan).getD Plan.empty

/-- The place of the selected term in the program. -/
def highlight? (session : Session) : Option Source.Range :=
  session.selection.bind Selection.highlight

/-- Whether there is a change to undo. -/
def canUndo (session : Session) : Bool := session.view.canUndo

/-- The session without a selection. -/
def deselect (session : Session) : Session := { session with selection := none }

/-- The selection of a shown term. -/
def selectionOf (session : Session) (id : TermId) : Selection :=
  { term := id
    plan := Plan.make session.index session.view id
    highlight := ((session.index.term? id).bind Term.span).map Source.Span.toRange }

/-- Selects a term. A hidden one is refused, and then nothing is selected. -/
def select (session : Session) (id : TermId) : Except NavigationError Plan × Session :=
  if session.view.shows id then
    let selection := session.selectionOf id
    (.ok selection.plan, { session with selection := some selection })
  else (.error (.notVisible id), session.deselect)

/-- Performs an action on the selected term and drops the selection; an action that fails changes
nothing. -/
def perform (session : Session) (action : Action) : Except NavigationError Change × Session :=
  match session.selection with
  | none => (.error .nothingSelected, session)
  | some selection =>
    match selection.plan.apply session.index session.view action with
    | .error error => (.error error, session)
    | .ok (change, view) => (.ok change, { session with view, selection := none })

/-- Takes back the newest change and drops the selection; without a change nothing happens. -/
def undo (session : Session) : Option Change × Session :=
  match session.view.undo? with
  | none => (none, session)
  | some (change, view) => (some change, { session with view, selection := none })

/-- Back to the initial view, with nothing selected and nothing to undo. -/
def reset (session : Session) : Session :=
  { session with view := session.view.reset, selection := none }

/-! ## Runs -/

/-- What can be done in a session. -/
inductive Command where
  | select (id : TermId)
  | deselect
  | perform (action : Action)
  | undo
  | reset
  deriving DecidableEq

/-- What a command answers. -/
inductive Answer where
  | selected (result : Except NavigationError Plan)
  | performed (result : Except NavigationError Change)
  | undone (change : Option Change)
  | done

/-- Carries out one command. -/
def obey (session : Session) : Command → Answer × Session
  | .select id =>
    let (result, session) := session.select id
    (.selected result, session)
  | .deselect => (.done, session.deselect)
  | .perform action =>
    let (result, session) := session.perform action
    (.performed result, session)
  | .undo =>
    let (change, session) := session.undo
    (.undone change, session)
  | .reset => (.done, session.reset)

/-- Carries out commands one after the other. -/
def run (session : Session) : List Command → List Answer × Session
  | [] => ([], session)
  | command :: later =>
    let (answer, session) := session.obey command
    let (answers, session) := session.run later
    (answer :: answers, session)

end Session

end ReductionStepper
