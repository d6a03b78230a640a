import ReductionStepper.Chart
import ReductionStepper.Screen.Theme

/-!
# The interactive stepper

The stepper is driven by keys: it moves a cursor over the terms of the chart, selects them, performs
actions, and asks for checks. A check that is asked for waits until it is taken; its result is
delivered later. While the help is shown, keys scroll or close it.
-/

namespace ReductionStepper

open Screen (Theme)

/-- A key. -/
inductive Key where
  | char (c : Char)
  | escape
  | enter
  | up
  | down
  | home
  | last
  /-- A key without a meaning. -/
  | other
  deriving DecidableEq

/-- The state of the stepper. -/
structure Stepper where
  bench : Workbench
  theme : Theme
  /-- Whether there is an evaluator to ask. -/
  canCheck : Bool
  /-- The check that waits to be taken. -/
  pending : Option (Ticket × Request) := none
  /-- The term that was selected last, as long as it is shown. -/
  cursor : Option TermId := none
  /-- How far the help is scrolled, while it is shown. -/
  help : Option UInt16 := none
  /-- The message about the last key. -/
  toast : Option String := none
  quit : Bool := false

namespace Stepper

/-- A stepper for a workbench. -/
def start (bench : Workbench) (theme : Theme) (canCheck : Bool) : Stepper :=
  { bench, theme, canCheck }

/-- The session that is stepped through. -/
def session? (stepper : Stepper) : Option Session := stepper.bench.session

/-- The stepper with another session. -/
def withSession (stepper : Stepper) (session : Session) : Stepper :=
  { stepper with bench := { stepper.bench with session := some session } }

/-- The stepper with a message. -/
def say (stepper : Stepper) (message : String) : Stepper := { stepper with toast := some message }

/-- The terms of the chart in order. -/
def order (stepper : Stepper) : List TermId :=
  match stepper.session? with
  | none => []
  | some session => Chart.order session

/-! ## Selecting -/

/-- Selects a term and puts the cursor there. -/
def select (stepper : Stepper) (id : TermId) : Stepper :=
  match stepper.session? with
  | none => stepper
  | some session =>
    match session.select id with
    | (.ok _, session) => { stepper.withSession session with cursor := some id }
    | (.error error, session) => (stepper.withSession session).say error.message

/-- The term that moving starts from: the selected one, else the one under the cursor. -/
def current? (stepper : Stepper) : Option TermId :=
  (stepper.session?.bind Session.selected?).or stepper.cursor

/-- Selects the next term, the first one if there is no current term. -/
def selectNext (stepper : Stepper) : Stepper :=
  let order := stepper.order
  let position := match stepper.current?.bind (order.idxOf? ·) with
    | none => 0
    | some position => min (position + 1) (order.length - 1)
  match order[position]? with
  | none => stepper
  | some id => stepper.select id

/-- Selects the previous term, the last one if there is no current term. -/
def selectPrevious (stepper : Stepper) : Stepper :=
  let order := stepper.order
  let position := match stepper.current?.bind (order.idxOf? ·) with
    | none => order.length - 1
    | some position => position - 1
  match order[position]? with
  | none => stepper
  | some id => stepper.select id

/-- Selects the first term. -/
def selectFirst (stepper : Stepper) : Stepper :=
  match stepper.order.head? with
  | none => stepper
  | some id => stepper.select id

/-- Selects the last term. -/
def selectLast (stepper : Stepper) : Stepper :=
  match stepper.order.getLast? with
  | none => stepper
  | some id => stepper.select id

/-- Selects the term under the cursor, the first one without a cursor. -/
def reselect (stepper : Stepper) : Stepper :=
  match stepper.cursor with
  | none => stepper.selectFirst
  | some id => stepper.select id

/-- Drops the notice and the selection. -/
def deselect (stepper : Stepper) : Stepper :=
  let bench := stepper.bench.clearNotice
  { stepper with bench := { bench with session := bench.session.map Session.deselect } }

/-! ## Changing the view -/

/-- What is said about terms that were revealed. -/
def revealedMessage (action : Action) (count : Nat) : String :=
  action.title ++ ": revealed " ++ Nat.repr count ++ (if count = 1 then " term" else " terms")

/-- Performs an action. -/
def perform (stepper : Stepper) (action : Action) : Stepper :=
  match stepper.session? with
  | none => stepper.say "No graph loaded"
  | some session =>
    match session.perform action with
    | (.ok change, session) =>
      (stepper.withSession session).say (revealedMessage action change.nodesAdded.length)
    | (.error error, session) => (stepper.withSession session).say error.message

/-- Takes back the newest change; a cursor on a term that is now hidden goes. -/
def undo (stepper : Stepper) : Stepper :=
  match stepper.session? with
  | none => stepper
  | some session =>
    let (change, session) := session.undo
    let stepper :=
      { stepper.withSession session with cursor := stepper.cursor.filter session.view.shows }
    stepper.say (if change.isSome then "Undid last action" else "Nothing to undo")

/-- Back to the initial view. -/
def reset (stepper : Stepper) : Stepper :=
  match stepper.session? with
  | none => stepper
  | some session =>
    ({ stepper.withSession session.reset with cursor := none }).say "Back to the initial view"

/-! ## Checks -/

/-- Asks for a check, in place of one that still waits. -/
def queueCheck (stepper : Stepper) : Stepper :=
  if stepper.canCheck then
    let (pending, bench) := stepper.bench.beginCheck
    { stepper with bench, pending := some pending }
  else stepper.say "Offline graph; checking is disabled"

/-- Takes the check that waits. -/
def takePending (stepper : Stepper) : Option (Ticket × Request) × Stepper :=
  (stepper.pending, { stepper with pending := none })

/-- Delivers the result of a check. A new session drops cursor and message. -/
def deliver (stepper : Stepper) (ticket : Ticket) (result : CheckResult) : Delivery × Stepper :=
  match stepper.bench.finishCheck ticket result with
  | (.session, bench) => (.session, { stepper with bench, cursor := none, toast := none })
  | (delivery, bench) => (delivery, { stepper with bench })

/-! ## Keys -/

/-- Shows the help from its start, or hides it. -/
def toggleHelp (stepper : Stepper) : Stepper :=
  { stepper with help := if stepper.help.isSome then none else some 0 }

/-- A key while the help is shown. -/
def pressInHelp (stepper : Stepper) (scroll : UInt16) : Key → Stepper
  | .escape => { stepper with help := none }
  | .down => { stepper with help := some (if scroll = 65535 then scroll else scroll + 1) }
  | .up => { stepper with help := some (if scroll = 0 then scroll else scroll - 1) }
  | .home => { stepper with help := some 0 }
  | .char c =>
    if c = '?' then { stepper with help := none }
    else if c = 'q' then { stepper with quit := true }
    else if c = 'j' then
      { stepper with help := some (if scroll = 65535 then scroll else scroll + 1) }
    else if c = 'k' then
      { stepper with help := some (if scroll = 0 then scroll else scroll - 1) }
    else stepper
  | _ => stepper

/-- A character typed while the help is hidden. -/
def pressChar (stepper : Stepper) (c : Char) : Stepper :=
  if c = 'q' then { stepper with quit := true }
  else if c = '?' then stepper.toggleHelp
  else if c = 'j' then stepper.selectNext
  else if c = 'k' then stepper.selectPrevious
  else if c = 'g' then stepper.selectFirst
  else if c = 'G' then stepper.selectLast
  else if c = 'u' then stepper.undo
  else if c = 'R' then stepper.reset
  else if c = 'c' then stepper.queueCheck
  else
    match Action.ofKey? c with
    | none => stepper
    | some action => stepper.perform action

/-- A key while the help is hidden. -/
def pressOutside (stepper : Stepper) : Key → Stepper
  | .char c => stepper.pressChar c
  | .escape => stepper.deselect
  | .enter => stepper.reselect
  | .up => stepper.selectPrevious
  | .down => stepper.selectNext
  | .home => stepper.selectFirst
  | .last => stepper.selectLast
  | .other => stepper

/-- Takes a key. -/
def press (stepper : Stepper) (key : Key) : Stepper :=
  match stepper.help with
  | some scroll => stepper.pressInHelp scroll key
  | none => stepper.pressOutside key

/-! ## Runs -/

/-- What happens to a stepper. -/
inductive Input where
  | key (key : Key)
  | take
  | deliver (ticket : Ticket) (result : CheckResult)

/-- Takes one input. -/
def receive (stepper : Stepper) : Input → Stepper
  | .key key => stepper.press key
  | .take => stepper.takePending.2
  | .deliver ticket result => (stepper.deliver ticket result).2

/-- Takes inputs one after the other. -/
def run (stepper : Stepper) (inputs : List Input) : Stepper := inputs.foldl receive stepper

end Stepper

end ReductionStepper
