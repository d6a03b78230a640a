import ReductionStepper.Action
import ReductionStepper.Term

/-!
# Log events

What the log records: a level, a message and named texts for each event.
-/

namespace ReductionStepper.Log

/-- How important an event is. -/
inductive Level where
  | debug
  | info
  | warn
  deriving DecidableEq, Repr

/-- An event worth recording. -/
inductive Event where
  | sessionStarted (terms edges : Nat) (stuck : Bool)
  | selected (node : TermId) (armed : List Action)
  | navigated (action : Action) (node : TermId)
  | undone
  | reset
  /-- The steps from `source` neither end nor meet `target`. -/
  | endlessPath (source target : TermId)
  /-- The steps from a term do not end. -/
  | endlessChain (id : TermId)
  | noDiagnostic (stuck : TermId)
  | posting (url function : String) (bytes : Nat)
  | issued (generation : Nat) (function : String)
  | dropped (generation : Nat)
  | evaluated (function kind : String) (terms : Nat)
  | timedOut (function input : String)
  /-- The evaluator's message takes the place of the event's own. -/
  | parseError (function message : String)
  | failed (function reason : String)
  | viewKept
  deriving DecidableEq

/-- The name of an action in a log. -/
def actionName : Action → String
  | .stepForward => "StepForward"
  | .stepBackward => "StepBackward"
  | .jumpForward => "JumpForward"
  | .jumpBackward => "JumpBackward"
  | .stepInto => "StepInto"
  | .stepOver => "StepOver"

/-- A list of actions in a log. -/
def actionList (actions : List Action) : String :=
  "[" ++ ", ".intercalate (actions.map actionName) ++ "]"

namespace Event

/-- The level of an event. -/
def level : Event → Level
  | .sessionStarted .. | .navigated .. | .undone | .reset => .info
  | .evaluated .. | .timedOut .. | .parseError .. => .info
  | .selected .. | .posting .. | .issued .. | .dropped _ => .debug
  | .endlessPath .. | .endlessChain _ | .noDiagnostic _ | .failed .. | .viewKept => .warn

/-- The message of an event. -/
def message : Event → String
  | .sessionStarted .. => "session started"
  | .selected .. => "selected"
  | .navigated .. => "navigation"
  | .undone => "undo"
  | .reset => "reset"
  | .endlessPath .. => "step chain does not terminate; treating path as unreachable"
  | .endlessChain _ => "step chain does not terminate; stopping at the walk bound"
  | .noDiagnostic _ => "stuck term has no source span; no annotation"
  | .posting .. => "posting check"
  | .issued .. => "check issued"
  | .dropped _ => "dropping stale check result"
  | .evaluated .. => "check evaluated"
  | .timedOut .. => "check timed out"
  | .parseError _ message => message
  | .failed .. => "check failed"
  | .viewKept => "check failed; keeping the current view"

/-- The named texts of an event. -/
def fields : Event → List (String × String)
  | .sessionStarted terms edges stuck =>
    [("terms", Nat.repr terms), ("edges", Nat.repr edges),
      ("stuck", if stuck then "true" else "false")]
  | .selected node armed => [("node", node.text), ("armed", actionList armed)]
  | .navigated action node => [("action", action.name), ("node", node.text)]
  | .undone | .reset | .viewKept => []
  | .endlessPath source target => [("from", source.text), ("to", target.text)]
  | .endlessChain id => [("id", id.text)]
  | .noDiagnostic stuck => [("stuck", stuck.text)]
  | .posting url function bytes =>
    [("url", url), ("function", function), ("bytes", Nat.repr bytes)]
  | .issued generation function =>
    [("generation", Nat.repr generation), ("function", function)]
  | .dropped generation => [("generation", Nat.repr generation)]
  | .evaluated function kind terms =>
    [("function", function), ("result", kind), ("terms", Nat.repr terms)]
  | .timedOut function input => [("function", function), ("input", input)]
  | .parseError function _ => [("function", function)]
  | .failed function reason => [("function", function), ("reason", reason)]

end Event

end ReductionStepper.Log
