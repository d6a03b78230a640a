import ReductionStepper.Text.Layout

/-!
# The canvas

The screen is a grid of characters, divided into areas, on which texts and boxes are put and lines
are wrapped between words.
-/

namespace ReductionStepper.Screen

/-! ## Areas

Rectangles of cells and how the screen is divided: a header row, a footer row and between them two
panels, side by side if the screen is wide enough, and a box in the middle for help. -/

/-- A rectangle of cells. -/
structure Area where
  x : Nat
  y : Nat
  width : Nat
  height : Nat
  deriving DecidableEq, Repr

namespace Area

/-- The cells inside the border of an area. -/
def inner (area : Area) : Area :=
  ⟨area.x + 1, area.y + 1, area.width - 2, area.height - 2⟩

/-- Whether two panels are stacked: they are too narrow side by side below ninety cells. -/
def stacksPanels (area : Area) : Bool := area.width < 90

/-- Whether the footer is short: it is below a hundred and twenty cells. -/
def isCompact (area : Area) : Bool := area.width < 120

/-- The given percentage of a length, a half rounded up. -/
def percent (length percentage : Nat) : Nat := (length * percentage * 2 + 100) / 200

/-- The area in the middle that takes the given percentages of width and height. The margins before
and behind it are equal percentages, and the edges are rounded. -/
def centered (widthPercent heightPercent : Nat) (area : Area) : Area :=
  let left := (100 - widthPercent) / 2
  let top := (100 - heightPercent) / 2
  let x := percent area.width left
  let y := percent area.height top
  { x := area.x + x
    y := area.y + y
    width := percent area.width (left + widthPercent) - x
    height := percent area.height (top + heightPercent) - y }

/-- The header row, the area between, and the footer row. -/
def rows (area : Area) : Area × Area × Area :=
  (⟨area.x, area.y, area.width, min 1 area.height⟩,
    ⟨area.x, area.y + 1, area.width, area.height - 2⟩,
    ⟨area.x, area.y + (area.height - 1), area.width, min 1 (area.height - 1)⟩)

/-- The two halves of an area, the first one larger if there is an odd cell. -/
def halves (area : Area) : Area × Area :=
  if area.stacksPanels then
    let first := (area.height + 1) / 2
    (⟨area.x, area.y, area.width, first⟩,
      ⟨area.x, area.y + first, area.width, area.height - first⟩)
  else
    let first := (area.width + 1) / 2
    (⟨area.x, area.y, first, area.height⟩,
      ⟨area.x + first, area.y, area.width - first, area.height⟩)

end Area

/-! ## Canvases

Texts are put on a canvas cut at the edges of their area; a panel is a box with a title on its upper
border. -/

/-- A grid of characters, row by row. -/
structure Canvas where
  rows : List (List Char)
  deriving DecidableEq

namespace Canvas

/-- A canvas of blanks. -/
def blank (width height : Nat) : Canvas := ⟨List.replicate height (List.replicate width ' ')⟩

/-- A row with characters put over those from a column on; it keeps its length. -/
def overRow (row : List Char) (x : Nat) (text : List Char) : List Char :=
  row.take x ++ text.take (row.length - x) ++ row.drop (x + text.length)

/-- Puts a text onto a row. -/
def put (canvas : Canvas) (x y : Nat) (text : List Char) : Canvas :=
  ⟨canvas.rows.modify y (overRow · x text)⟩

/-- Puts texts onto the rows from `y` down. -/
def putRows (canvas : Canvas) (x y : Nat) : List (List Char) → Canvas
  | [] => canvas
  | text :: later => putRows (canvas.put x y text) x (y + 1) later

/-- Whether a character takes a cell. -/
def takesCell (c : Char) : Bool := 0x20 ≤ c.toNat && !(0x7f ≤ c.toNat && c.toNat < 0xa0)

/-- Puts lines into an area, cut at its right and lower edge; the first `scroll` lines are passed
over. -/
def putLines (canvas : Canvas) (area : Area) (scroll : Nat) (lines : List (List Char)) : Canvas :=
  canvas.putRows area.x area.y
    (((lines.drop scroll).take area.height).map fun line =>
      (line.filter takesCell).take area.width)

/-- Blanks out an area. -/
def clear (canvas : Canvas) (area : Area) : Canvas :=
  canvas.putRows area.x area.y (List.replicate area.height (List.replicate area.width ' '))

/-- A row of a box: a corner, the filling, a corner. -/
def boxRow (width : Nat) (left fill right : Char) : List Char :=
  if width = 1 then [left]
  else [left] ++ List.replicate (width - 2) fill ++ [right]

/-- Draws the border of an area and puts a title onto it, one cell in. -/
def box (canvas : Canvas) (area : Area) (title : String) : Canvas :=
  if area.width = 0 || area.height = 0 then canvas
  else
    let top := canvas.put area.x area.y (boxRow area.width '┌' '─' '┐')
    let sides := (List.range (area.height - 2)).foldl
      (fun canvas i =>
        (canvas.put area.x (area.y + 1 + i) ['│']).put (area.x + (area.width - 1))
          (area.y + 1 + i) ['│'])
      top
    let bottom :=
      if area.height = 1 then sides
      else sides.put area.x (area.y + (area.height - 1)) (boxRow area.width '└' '─' '┘')
    bottom.put (area.x + 1) area.y ((title.toList.filter takesCell).take (area.width - 2))

/-- The rows of a canvas as texts. -/
def texts (canvas : Canvas) : List String := canvas.rows.map String.ofList

end Canvas

/-! ## Wrapped lines

A line that is too wide is broken between words. Blanks at a break are dropped as far as they fit
the broken line, and one more; all other blanks are kept. A word wider than the line is cut. -/

/-- The state of wrapping one line. -/
structure Wrapping where
  /-- The finished lines, newest first. -/
  finished : List (List Char) := []
  /-- The line that is being filled. -/
  line : List Char := []
  /-- The blanks behind that line. -/
  gap : List Char := []
  /-- The word behind the blanks. -/
  word : List Char := []
  /-- Whether the last character belonged to a word. -/
  inWord : Bool := false

namespace Wrapping

/-- Whether a line may break at a character: at any blank but the one that does not break. -/
def breaksAt (c : Char) : Bool := Text.isBlank c && c ≠ '\u00a0'

/-- Moves the blanks and the word onto the line. -/
def settle (state : Wrapping) : Wrapping :=
  { state with line := state.line ++ state.gap ++ state.word, gap := [], word := [] }

/-- Takes one more character. -/
def next (width : Nat) (state : Wrapping) (c : Char) : Wrapping :=
  let blank := breaksAt c
  let state :=
    if state.inWord && blank ||
        state.line.isEmpty && width < state.word.length + state.gap.length + 1 then
      state.settle
    else state
  let full := width ≤ state.line.length + state.gap.length + state.word.length
  let room := width - state.line.length
  let droppedAll := state.gap.length ≤ room
  let state :=
    if full then
      { state with
        finished := state.line :: state.finished, line := [], gap := state.gap.drop (room + 1) }
    else state
  if full && blank && droppedAll then state
  else if blank then { state with gap := state.gap ++ [c], inWord := false }
  else { state with word := state.word ++ [c], inWord := true }

/-- The lines when no character is left. -/
def finish (state : Wrapping) : List (List Char) :=
  let last := state.line ++ state.gap ++ state.word
  let finished :=
    if state.line.isEmpty && state.word.isEmpty then
      if state.gap.isEmpty then state.finished else [] :: state.finished
    else last :: state.finished
  if finished.isEmpty then [[]] else finished.reverse

end Wrapping

/-- The lines that a line wraps to; none fit a width of zero. -/
def wrap (width : Nat) (text : List Char) : List (List Char) :=
  if width = 0 then [] else (text.foldl (Wrapping.next width) {}).finish

end ReductionStepper.Screen
