import ReductionStepper.Chart
import ReductionStepper.Log.Event

/-!
# Events of a session

The events that walks, plans, charts and the commands of a session give rise to, in the order in
which they happen.
-/

namespace ReductionStepper.Log

/-! ## Walks -/

/-- The event of a walk to a term. -/
def ofPath (index : Index) (source target : TermId) : List Event :=
  match index.walk source target with
  | .endless => [.endlessPath source target]
  | _ => []

/-- The event of following a chain to its end. -/
def ofValue (index : Index) (id : TermId) : List Event :=
  match index.settle id with
  | .unsettled _ => [.endlessChain id]
  | .ended _ => []

/-- The event of walking the steps behind a link, if there is a link. -/
def ofLink (index : Index) : Option Link → List Event
  | none => []
  | some link => ofPath index link.source link.target

/-! ## Plans -/

/-- The events of the rule for an action: it walks the link that leaves or enters the selected term,
or follows a subterm to its value, or both. -/
def ofRule (index : Index) (view : View) (selected : TermId) : Action → List Event
  | .stepForward => []
  | .stepBackward => ofLink index (view.soleIncoming? selected)
  | .jumpForward => ofLink index (view.soleOutgoing? selected)
  | .jumpBackward => ofLink index (view.soleIncoming? selected)
  | .stepInto =>
    match Plan.callingSubterm? index selected with
    | none => []
    | some subterm => ofValue index subterm
  | .stepOver =>
    match view.soleOutgoing? selected with
    | none => []
    | some link =>
      let walked := ofPath index link.source link.target
      walked ++ walked ++
        match index.activeSubterm? link.source link.target with
        | none => []
        | some subterm => ofValue index subterm

/-- The events of planning for a selected term. -/
def ofPlan (index : Index) (view : View) (selected : TermId) : List Event :=
  if view.shows selected then Action.all.flatMap (ofRule index view selected) else []

/-! ## Charts -/

/-- The events of a row: a link that stands for several steps is walked. -/
def ofRow (index : Index) : ChartRow → List Event
  | .link link => if link.isCollapsed then ofPath index link.source link.target else []
  | _ => []

/-- The events of a session's chart. -/
def ofChart (session : Session) : List Event := (Chart.rows session).flatMap (ofRow session.index)

/-! ## Commands -/

/-- The event of starting a session. -/
def ofStart (graph : Graph) : List Event :=
  [.sessionStarted graph.terms.length graph.edges.length graph.ending.isStuck]

/-- The events of selecting a term. -/
def ofSelect (session : Session) (id : TermId) : List Event :=
  match session.select id with
  | (.ok plan, _) => ofPlan session.index session.view id ++ [.selected id plan.armed]
  | (.error _, _) => []

/-- The events of performing an action. -/
def ofPerform (session : Session) (action : Action) : List Event :=
  match session.selected?, session.perform action with
  | some node, (.ok _, _) => [.navigated action node]
  | _, _ => []

/-- The events of undoing. -/
def ofUndo (session : Session) : List Event := if session.undo.1.isSome then [.undone] else []

/-- The events of a command. -/
def ofCommand (session : Session) : Session.Command → List Event
  | .select id => ofSelect session id
  | .deselect => []
  | .perform action => ofPerform session action
  | .undo => ofUndo session
  | .reset => [.reset]

end ReductionStepper.Log
