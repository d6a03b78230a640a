import ReductionStepper.Evaluator.Reply.Decoder

/-!
# Checks

A check sends a program and the name of a function to the evaluator. What comes back is a reply or a
reason why there is none. Checks are numbered; only the newest one counts, and only once.
-/

namespace ReductionStepper

/-- What is sent to the evaluator. -/
structure Request where
  program : String
  function : String
  deriving DecidableEq

/-- Why a check has no reply. -/
inductive CheckError where
  | transport (reason : String)
  | timedOut
  | status (code : Nat)
  | undecodable (reason : String)
  deriving DecidableEq

/-- The text of an error. -/
def CheckError.message : CheckError → String
  | .transport reason => s!"request failed: {reason}"
  | .timedOut => "request timed out"
  | .status code => s!"evaluator answered HTTP {Nat.repr code}"
  | .undecodable reason => s!"malformed response: {reason}"

/-- What comes back from a check. -/
abbrev CheckResult := Except CheckError Reply

/-- The result of a check from the text that came back. -/
def CheckResult.ofText (text : String) : CheckResult :=
  match Reply.decode text with
  | .error error => .error (.undecodable error.message)
  | .ok reply => .ok reply

/-- The address of an evaluator. -/
structure Address where
  base : String
  deriving DecidableEq

namespace Address

/-- The address with the given text; slashes at its end do not count. -/
def ofString (text : String) : Address :=
  ⟨String.ofList (text.toList.reverse.dropWhile (· = '/')).reverse⟩

/-- Where checks are sent. -/
def endpoint (address : Address) : String := address.base ++ "/check"

/-- The address of an evaluator on this machine. -/
def default : String := "http://127.0.0.1:8091"

/-- What comes of a check when its endpoint is no absolute address of a host. -/
def unusable : CheckError := .transport "builder error"

end Address

/-- The seconds that a check may take. -/
def defaultTimeout : Nat := 10

/-- The number of a check. -/
structure Ticket where
  generation : UInt64
  deriving DecidableEq

/-- The number of the newest check, and whether its result was taken. -/
structure Tracker where
  latest : UInt64 := 0
  settled : Bool := false
  deriving DecidableEq

namespace Tracker

/-- Numbers a new check. -/
def issue (tracker : Tracker) : Ticket × Tracker :=
  (⟨tracker.latest + 1⟩, ⟨tracker.latest + 1, false⟩)

/-- Whether a ticket is the newest one. -/
def isCurrent (tracker : Tracker) (ticket : Ticket) : Bool := ticket.generation = tracker.latest

/-- Whether a check was issued whose result has not come. -/
def inFlight (tracker : Tracker) : Bool := 0 < tracker.latest && !tracker.settled

/-- Takes the result of a check; only the newest check counts, and only once. -/
def settle (tracker : Tracker) (ticket : Ticket) : Bool × Tracker :=
  if tracker.isCurrent ticket && !tracker.settled then (true, { tracker with settled := true })
  else (false, tracker)

end Tracker

end ReductionStepper
