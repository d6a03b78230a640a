import ReductionStepper.Source.Diagnostic

/-!
# Marking a line of source

A line of the program is cut into the longest segments of one mark: what a diagnostic covers, what
only the highlight covers, and the rest.
-/

namespace ReductionStepper.Source

/-- How a character of the program is shown. -/
inductive Mark where
  | plain
  | highlight
  | annotated
  deriving DecidableEq, Repr

/-- A part of a line with one mark. -/
structure Segment where
  text : String
  mark : Mark
  deriving DecidableEq

/-- The mark of a position. A diagnostic wins over the highlight. -/
def markAt (highlight : Option Range) (diagnostics : List Diagnostic) (p : Position) : Mark :=
  if diagnostics.any (·.range.contains p) then .annotated
  else if highlight.any (·.contains p) then .highlight
  else .plain

/-- The longest runs of characters with one mark. -/
def markedRuns (markOf : Nat → Mark) (column : Nat) : List Char → List (List Char × Mark)
  | [] => []
  | c :: cs =>
    match markedRuns markOf (column + 1) cs with
    | [] => [([c], markOf column)]
    | (run, mark) :: later =>
      if markOf column = mark then (c :: run, mark) :: later
      else ([c], markOf column) :: (run, mark) :: later

/-- The segments of a line. -/
def segments (line : UInt32) (text : String) (highlight : Option Range)
    (diagnostics : List Diagnostic) : List Segment :=
  (markedRuns (fun column => markAt highlight diagnostics ⟨line, clamp column⟩) 0 text.toList).map
    fun (run, mark) => ⟨String.ofList run, mark⟩

/-- The messages of the diagnostics that start on a line. -/
def messagesOn (line : UInt32) (diagnostics : List Diagnostic) : List String :=
  (diagnostics.filter (·.range.start.line = line)).map Diagnostic.message

end ReductionStepper.Source
