import ReductionStepper.Log.Session
import ReductionStepper.Stepper

/-!
# Events of checks and keys

The events that checks and the inputs of a stepper give rise to, in the order in which they happen.
-/

namespace ReductionStepper.Log

/-! ## Checks -/

/-- The event of sending a request. -/
def ofPost (address : Address) (request : Request) : List Event :=
  [.posting address.endpoint request.function request.program.utf8ByteSize]

/-- The events of turning a reply into an outcome. -/
def ofReply (reply : Reply) : List Event :=
  match reply.outcome with
  | .ok (.evaluated graph []) =>
    match graph.ending with
    | .stuck term _ => [.noDiagnostic term]
    | .value _ => []
  | _ => []

/-- The event of starting a check. -/
def ofBegin (bench : Workbench) : List Event :=
  let ((ticket, request), _) := bench.beginCheck
  [.issued ticket.generation.toNat request.function]

/-- The events of taking the outcome of a reply of a kind. -/
def ofOutcome (function : String) (kind : Reply.Kind) : Outcome → List Event
  | .evaluated graph _ => ofStart graph ++ [.evaluated function kind.word graph.terms.length]
  | .timedOut input => [.timedOut function input]
  | .parseError message _ => [.parseError function message]

/-- The events of taking the result of a check that counts. -/
def ofResult (function : String) : CheckResult → List Event
  | .error error => [.failed function error.message]
  | .ok reply =>
    ofReply reply ++
      match reply.outcome with
      | .error error => [.failed function error.message]
      | .ok outcome => ofOutcome function reply.kind outcome

/-- The events of taking the result of a check. -/
def ofFinish (bench : Workbench) (ticket : Ticket) (result : CheckResult) : List Event :=
  if (bench.tracker.settle ticket).1 then ofResult bench.function result
  else [.dropped ticket.generation.toNat]

/-! ## Keys -/

/-- The events in the stepper's session, if there is one. -/
def inSession (stepper : Stepper) (events : Session → List Event) : List Event :=
  match stepper.session? with
  | none => []
  | some session => events session

/-- The events of a key that moves from `stepper` to `moved` by the order of the chart. -/
def ofMove (stepper moved : Stepper) : List Event :=
  inSession stepper fun session =>
    ofChart session ++
      match moved.cursor with
      | none => []
      | some id => ofSelect session id

/-- The events of a character typed while the help is hidden. -/
def ofChar (stepper : Stepper) (c : Char) : List Event :=
  if c = 'j' then ofMove stepper stepper.selectNext
  else if c = 'k' then ofMove stepper stepper.selectPrevious
  else if c = 'g' then ofMove stepper stepper.selectFirst
  else if c = 'G' then ofMove stepper stepper.selectLast
  else if c = 'u' then inSession stepper ofUndo
  else if c = 'R' then inSession stepper fun _ => [.reset]
  else if c = 'c' then if stepper.canCheck then ofBegin stepper.bench else []
  else
    match Action.ofKey? c with
    | none => []
    | some action => inSession stepper (ofPerform · action)

/-- The events of a key. -/
def ofKey (stepper : Stepper) (key : Key) : List Event :=
  if stepper.help.isSome then []
  else
    match key with
    | .char c => ofChar stepper c
    | .down => ofMove stepper stepper.selectNext
    | .up => ofMove stepper stepper.selectPrevious
    | .home => ofMove stepper stepper.selectFirst
    | .last => ofMove stepper stepper.selectLast
    | .enter =>
      match stepper.cursor with
      | none => ofMove stepper stepper.selectFirst
      | some id => inSession stepper (ofSelect · id)
    | .escape | .other => []

/-- The events of delivering the result of a check. -/
def ofDeliver (stepper : Stepper) (ticket : Ticket) (result : CheckResult) : List Event :=
  ofFinish stepper.bench ticket result ++
    if (stepper.deliver ticket result).1 = .failed then [.viewKept] else []

end ReductionStepper.Log
