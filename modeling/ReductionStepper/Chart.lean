import ReductionStepper.Session
import ReductionStepper.Text.Layout
import ReductionStepper.View

/-!
# The chart of a view

A chart writes the chains of a session's view from top to bottom: one row for each term, between two
terms a row for the link, and an empty row between two chains. It records the row of every term.
-/

namespace ReductionStepper

/-- How a chart is drawn. -/
structure ChartOptions where
  /-- The most characters in the row of a term; zero for no limit. -/
  width : Nat := 0
  /-- Whether a label is preceded by the term's id. -/
  showIds : Bool := false

/-- A row of a chart. -/
inductive ChartRow where
  | term (id : TermId)
  | link (link : Link)
  | gap
  deriving DecidableEq

namespace Chart

/-- The mark before the selected term. -/
def selectedMark : String := "▶ "

/-- The blanks before everything else. -/
def margin : String := "  "

/-- The rows of the links of a chain, each followed by the term that it leads to. -/
def linkRows (links : List Link) : List ChartRow :=
  links.flatMap fun link => [.link link, .term link.target]

/-- The rows of a chain. -/
def chainRows (chain : Chain) : List ChartRow := .term chain.head :: linkRows chain.links

/-- The rows of chains, with a gap between two of them. -/
def rowsOf : List Chain → List ChartRow
  | [] => []
  | [chain] => chainRows chain
  | chain :: later => chainRows chain ++ .gap :: rowsOf later

/-- The rows of a session's chart. -/
def rows (session : Session) : List ChartRow := rowsOf session.view.chains

/-- The terms of a chart in the order of their rows. -/
def order (session : Session) : List TermId := session.view.chains.flatMap Chain.nodes

/-- The row that a term stands in. -/
def rowOf? (session : Session) (id : TermId) : Option Nat :=
  (rows session).findIdx? (· = .term id)

/-- What is added to the label of the last term. -/
def endingMark (ending : Ending) (id : TermId) : String :=
  match ending with
  | .value term => if term = id then "  ✓" else ""
  | .stuck term _ => if term = id then "  ✗ stuck" else ""

/-- A term's label on one line, with its id before it if wanted and the mark of the ending. -/
def label (session : Session) (options : ChartOptions) (id : TermId) : String :=
  let text := ((session.index.term? id).map fun term => Text.singleLine term.plainLabel).getD ""
  (if options.showIds then s!"[{id.text}] {text}" else text) ++ endingMark session.ending id

/-- The text of a term's row. The limit counts the margin, but never shortens it. -/
def termText (session : Session) (options : ChartOptions) (id : TermId) : String :=
  let mark := if session.selected? = some id then selectedMark else margin
  let text := label session options id
  mark ++ if options.width = 0 then text else Text.shorten (options.width - mark.length) text

/-- The text of a link's row: the count of steps behind a link that stands for several, or an
ellipsis where no steps lead from one end to the other. -/
def linkText (index : Index) (link : Link) : String :=
  match link.weight with
  | .single => margin ++ "│"
  | .multi =>
    match (index.path link.source link.target).length with
    | 0 => margin ++ "┃ …"
    | hops => margin ++ s!"┃ {Nat.repr hops} steps"

/-- The text of a row. -/
def rowText (session : Session) (options : ChartOptions) : ChartRow → String
  | .term id => termText session options id
  | .link link => linkText session.index link
  | .gap => ""

/-- The lines of a session's chart. -/
def lines (session : Session) (options : ChartOptions) : List String :=
  (rows session).map (rowText session options)

/-- A session's chart as a text. -/
def text (session : Session) (options : ChartOptions) : String :=
  "\n".intercalate (lines session options)

end Chart

end ReductionStepper
