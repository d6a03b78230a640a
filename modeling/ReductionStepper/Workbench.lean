import ReductionStepper.Chart
import ReductionStepper.Evaluator.Check
import ReductionStepper.Evaluator.Outcome
import ReductionStepper.Session

/-!
# The workbench

The workbench holds the program, the session of the last check that gave a graph, what the last
check said about the program, and a notice. A check that fails leaves the session as it is.
-/

namespace ReductionStepper

open Source (Diagnostic)

/-- How serious a notice is. -/
inductive NoticeLevel where
  | info
  | warning
  | error
  deriving DecidableEq, Repr

/-- A notice for the user. -/
structure Notice where
  level : NoticeLevel
  message : String
  deriving DecidableEq

/-- What became of the result of a check. -/
inductive Delivery where
  | stale
  | session
  | timedOut
  | parseError
  | failed
  deriving DecidableEq, Repr

/-- The state of the work on one program. -/
structure Workbench where
  program : String
  function : String
  session : Option Session := none
  diagnostics : List Diagnostic := []
  notice : Option Notice := none
  tracker : Tracker := {}

namespace Workbench

/-- A workbench for a program before any check. -/
def start (program function : String) : Workbench := { program, function }

/-- Whether a check is under way. -/
def inFlight (bench : Workbench) : Bool := bench.tracker.inFlight

/-- The workbench without a notice. -/
def clearNotice (bench : Workbench) : Workbench := { bench with notice := none }

/-- Starts a check of the program. -/
def beginCheck (bench : Workbench) : (Ticket × Request) × Workbench :=
  let (ticket, tracker) := bench.tracker.issue
  ((ticket, ⟨bench.program, bench.function⟩), { bench with tracker, notice := none })

/-- Reports that a check failed. -/
def fail (bench : Workbench) (reason : String) : Delivery × Workbench :=
  (.failed, { bench with notice := some ⟨.error, s!"Something went wrong: {reason}"⟩ })

/-- Takes the outcome of a check. -/
def takeOutcome (bench : Workbench) : Outcome → Delivery × Workbench
  | .evaluated graph diagnostics =>
    (.session, { bench with session := some (Session.start graph), diagnostics })
  | .timedOut input =>
    (.timedOut, { bench with notice := some ⟨.warning, s!"Timed out on input: {input}"⟩ })
  | .parseError message diagnostic =>
    (.parseError, { bench with
      diagnostics := [diagnostic]
      notice := some ⟨.error, s!"Parse error: {message}"⟩ })

/-- Takes the result of a check that counts. -/
def takeResult (bench : Workbench) : CheckResult → Delivery × Workbench
  | .error error => bench.fail error.message
  | .ok reply =>
    match reply.outcome with
    | .error error => bench.fail error.message
    | .ok outcome => bench.takeOutcome outcome

/-- Takes the result of a check; one that does not count changes nothing. -/
def finishCheck (bench : Workbench) (ticket : Ticket) (result : CheckResult) :
    Delivery × Workbench :=
  let (settled, tracker) := bench.tracker.settle ticket
  if settled then takeResult { bench with tracker } result else (.stale, bench)

/-! ## Runs -/

/-- What happens to a workbench. -/
inductive Input where
  | beginCheck
  | finishCheck (ticket : Ticket) (result : CheckResult)
  | clearNotice
  | command (command : Session.Command)

/-- Carries out a command in the session, if there is one. -/
def obey (bench : Workbench) (command : Session.Command) : Workbench :=
  { bench with session := bench.session.map fun session => (session.obey command).2 }

/-- Takes one input. -/
def receive (bench : Workbench) : Input → Workbench
  | .beginCheck => bench.beginCheck.2
  | .finishCheck ticket result => (bench.finishCheck ticket result).2
  | .clearNotice => bench.clearNotice
  | .command command => bench.obey command

/-- Takes inputs one after the other. -/
def run (bench : Workbench) (inputs : List Input) : Workbench := inputs.foldl receive bench

end Workbench

/-! ## Reports

A report says in plain text what a workbench holds: the notice, how the evaluation ended, the
diagnostics with their places counted from one, and the chart. -/

namespace Report

/-- The line about how an evaluation ended. -/
def endingLine (function : String) (session : Session) : String :=
  match session.ending with
  | .value id =>
    function ++ " evaluates to " ++ ((session.index.term? id).map Term.plainLabel).getD ""
  | .stuck _ reason => function ++ " gets stuck: " ++ reason

/-- The line about a diagnostic. -/
def diagnosticLine (d : Diagnostic) : String :=
  Nat.repr (d.range.start.line + 1).toNat ++ ":" ++ Nat.repr (d.range.start.column + 1).toNat ++
    ": " ++ Diagnostic.severity ++ ": " ++ d.message

/-- The parts of a report, each of which ends in a line feed. -/
def parts (bench : Workbench) : List String :=
  (bench.notice.map Notice.message).toList ++
    (bench.session.map (endingLine bench.function)).toList ++
    bench.diagnostics.map diagnosticLine ++
    match bench.session with
    | none => []
    | some session => ["", Chart.text session {}]

/-- The report on a workbench. -/
def text (bench : Workbench) : String := String.join ((parts bench).map (· ++ "\n"))

end Report

end ReductionStepper
