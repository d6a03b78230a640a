import ReductionStepper.Source.Marking
import ReductionStepper.Stepper
import ReductionStepper.Text.Casing
import ReductionStepper.Text.Layout

/-!
# The panels of the stepper

The lines that the stepper shows: the chart, the program, the header, the footer and the help.
-/

namespace ReductionStepper.Stepper

open Screen (Line Run Style Theme)

/-! ## Chart -/

/-- The title of the chart: how many terms are shown and how many changes can be undone. -/
def chartTitle (stepper : Stepper) : String :=
  match stepper.session? with
  | none => " Chain "
  | some session =>
    " Chain: " ++ Nat.repr session.view.shown.nodes.size ++ "/" ++
      Nat.repr session.index.graph.terms.length ++ " terms, " ++
      Nat.repr session.view.history.length ++ " undoable "

/-- What stands in place of the chart without a graph. -/
def emptyMessage (stepper : Stepper) : String :=
  if stepper.bench.inFlight then "Checking…"
  else if stepper.canCheck then "No graph loaded. Press c to check the program."
  else "No graph loaded."

/-- The style of the line with a number: that of the selected term stands out, else that of the term
under the cursor; lines without a term stand back. -/
def rowStyle (stepper : Stepper) (session : Session) (row : Nat) : Style :=
  let rowOf? := Chart.rowOf? session
  if session.selected?.bind rowOf? = some row then stepper.theme.selection
  else if stepper.cursor.bind rowOf? = some row then stepper.theme.base.bolded
  else if (Chart.order session).any (rowOf? · = some row) then stepper.theme.base
  else stepper.theme.dim

/-- The lines of the chart at a width, zero for no limit: those of its text. -/
def chartLines (stepper : Stepper) (width : Nat) : List Line :=
  match stepper.session? with
  | none => [[⟨stepper.emptyMessage, stepper.theme.dim⟩]]
  | some session =>
    (Text.lines (Chart.text session { width })).mapIdx fun row line =>
      [⟨line, stepper.rowStyle session row⟩]

/-- The row to keep in sight: that of the selected term, else that of the cursor. -/
def chartRow? (stepper : Stepper) : Option Nat := do
  let session ← stepper.session?
  (session.selected?.bind (Chart.rowOf? session)).or
    (stepper.cursor.bind (Chart.rowOf? session))

/-! ## Program -/

/-- The style of a part of the program. -/
def markStyle (theme : Theme) : Source.Mark → Style
  | .plain => theme.base
  | .highlight => theme.highlight
  | .annotated => theme.annotation

/-- A line of the program with its number and the messages about it. -/
def sourceLine (stepper : Stepper) (number : Nat) (text : String) : Line :=
  let line := Source.clamp number
  let diagnostics := stepper.bench.diagnostics
  let highlight := stepper.session?.bind Session.highlight?
  let segments := Source.segments line text highlight diagnostics
  [⟨Text.alignRight 3 (Nat.repr (number + 1)) ++ " ", stepper.theme.dim⟩] ++
    segments.map (fun segment => ⟨segment.text, markStyle stepper.theme segment.mark⟩) ++
    (Source.messagesOn line diagnostics).map fun message =>
      ⟨"  ◀ " ++ message, stepper.theme.notice .error⟩

/-- The lines of the program. -/
def sourceLines (stepper : Stepper) : List Line :=
  (Text.lines stepper.bench.program).mapIdx stepper.sourceLine

/-- The title of the program. -/
def sourceTitle (stepper : Stepper) : String := " Source: " ++ stepper.bench.function ++ " "

/-! ## Header -/

/-- A text in one style on one line; its line ends are dropped. -/
def styledText (text : String) (style : Style) : Line := [⟨String.join (Text.lines text), style⟩]

/-- What the header says about a session. -/
def endingText (stepper : Stepper) (session : Session) : String :=
  let function := stepper.bench.function
  match session.ending with
  | .value id =>
    let value := match session.index.term? id with
      | none => id.text
      | some term => Text.singleLine term.plainLabel
    "✓ " ++ function ++ " evaluates to " ++ value
  | .stuck _ reason => "✗ " ++ function ++ " gets stuck: " ++ reason

/-- The header: a notice, else a check under way, else how the evaluation ended. -/
def header (stepper : Stepper) : Line :=
  match stepper.bench.notice with
  | some notice => styledText notice.message (stepper.theme.notice notice.level)
  | none =>
    if stepper.bench.inFlight then
      styledText ("Checking " ++ stepper.bench.function ++ "…") (stepper.theme.notice .info)
    else
      match stepper.session? with
      | none => styledText "No graph loaded" stepper.theme.dim
      | some session =>
        styledText (stepper.endingText session) (stepper.theme.outcome session.ending.isStuck)

/-! ## Footer -/

/-- The style of labels in the footer. -/
def labelStyle : Style := Style.plain.fg .gray

/-- The style of a key in the footer. -/
def keyStyle (enabled : Bool) : Style :=
  (Style.plain.fg (if enabled then .cyan else .darkGray)).bolded

/-- An entry of the footer: a label and a key. -/
structure FooterEntry where
  label : String
  key : Char
  enabled : Bool

/-- The label of an action in the footer. -/
def actionLabel : Action → String
  | .stepForward => "STEP"
  | .stepBackward => "BACK"
  | .jumpForward => "JUMP"
  | .jumpBackward => "JUMP BACK"
  | .stepInto => "INTO"
  | .stepOver => "OVER"

/-- Whether an action would reveal anything. -/
def isArmed (stepper : Stepper) (action : Action) : Bool :=
  stepper.session?.any (·.plan.isArmed action)

/-- The entries of the footer for the six actions. -/
def actionEntries (stepper : Stepper) : List FooterEntry :=
  Action.all.map fun action => ⟨actionLabel action, action.key, stepper.isArmed action⟩

/-- The entries for what else changes the view, and for checks. -/
def undoEntry (stepper : Stepper) : FooterEntry :=
  ⟨"UNDO", 'u', stepper.session?.any Session.canUndo⟩

/-- The entry for resetting the view. -/
def resetEntry (stepper : Stepper) : FooterEntry := ⟨"RESET", 'R', stepper.session?.isSome⟩

/-- The entry for checks. -/
def checkEntry (stepper : Stepper) : FooterEntry := ⟨"CHECK", 'c', stepper.canCheck⟩

/-- The entries that are always there. -/
def generalEntries : List FooterEntry := [⟨"HELP", '?', true⟩, ⟨"QUIT", 'q', true⟩]

/-- What stands between two entries. -/
def separator : Run := ⟨" | ", labelStyle⟩

/-- The runs of an entry. -/
def FooterEntry.runs (entry : FooterEntry) : Line :=
  [⟨Text.sentenceCase entry.label ++ ":", labelStyle⟩,
    ⟨String.singleton entry.key, keyStyle entry.enabled⟩]

/-- The start of the short footer: the keys of the actions without labels. -/
def compactActions (stepper : Stepper) : Line :=
  ⟨"Actions:", labelStyle⟩ ::
    stepper.actionEntries.map fun entry => ⟨String.singleton entry.key, keyStyle entry.enabled⟩

/-- The parts of the footer. -/
def footerParts (stepper : Stepper) (compact : Bool) : List Line :=
  if compact then
    stepper.compactActions :: (stepper.undoEntry :: generalEntries).map FooterEntry.runs
  else
    (stepper.actionEntries ++ [stepper.undoEntry, stepper.resetEntry, stepper.checkEntry] ++
      generalEntries).map FooterEntry.runs

/-- The footer: the keys, those without effect greyed out, and the message about the last key. -/
def footer (stepper : Stepper) (compact : Bool) : Line :=
  [separator].intercalate (stepper.footerParts compact) ++
    match stepper.toast with
    | none => []
    | some message => [separator, ⟨"Toast:", labelStyle⟩, ⟨message, .plain⟩]

/-! ## Help -/

/-- The style of headings in the help. -/
def headingStyle : Style := (Style.plain.fg .white).bolded

/-- A heading of the help. -/
def helpHeading (text : String) : Line := [⟨text, headingStyle⟩]

/-- A key and what it does. -/
def helpEntry (key description : String) : Line :=
  [⟨Text.alignRight 9 key, keyStyle true⟩, ⟨"  ", .plain⟩, ⟨description, .plain⟩]

/-- The lines of the help. -/
def helpLines : List Line :=
  [helpHeading "Selection",
    helpEntry "j / ↓" "select the next visible term",
    helpEntry "k / ↑" "select the previous visible term",
    helpEntry "g / G" "select the first / last term",
    helpEntry "Enter" "reselect the term under the cursor",
    helpEntry "Esc" "clear the selection",
    [],
    helpHeading "Navigation (greyed out when unavailable)"] ++
  Action.all.map (fun action => helpEntry (String.singleton action.key) action.title) ++
  [helpEntry "u" "Undo the last action",
    helpEntry "R" "Reset to the initial view",
    [],
    helpHeading "Program",
    helpEntry "c" "Check the program again",
    helpEntry "?" "Toggle this help",
    helpEntry "q" "Quit"]

end ReductionStepper.Stepper
