import ReductionStepper.Screen.Canvas
import ReductionStepper.Stepper.Panel

/-!
# Drawing the stepper

The characters on a screen of a given size: the header, the chart, the program, the footer, and over
them the help while it is shown. The chart is scrolled so far that its row in sight is the last
one at most.
-/

namespace ReductionStepper.Stepper

open Screen (Area Canvas Line)

/-- The characters of a line. -/
def lineChars (line : Line) : List Char := line.text.toList

/-- Draws the chart. -/
def drawChart (stepper : Stepper) (area : Area) (canvas : Canvas) : Canvas :=
  let inner := area.inner
  let scroll := (stepper.chartRow?.map (· - (inner.height - 1))).getD 0
  (canvas.box area stepper.chartTitle).putLines inner scroll
    ((stepper.chartLines inner.width).map lineChars)

/-- Draws the program. -/
def drawSource (stepper : Stepper) (area : Area) (canvas : Canvas) : Canvas :=
  (canvas.box area stepper.sourceTitle).putLines area.inner 0 (stepper.sourceLines.map lineChars)

/-- Draws the help over the middle of an area. -/
def drawHelp (scroll : UInt16) (area : Area) (canvas : Canvas) : Canvas :=
  let area := area.centered 70 80
  let lines := helpLines.flatMap fun line => Screen.wrap area.inner.width (lineChars line)
  ((canvas.clear area).box area " Help ").putLines area.inner scroll.toNat lines

/-- Draws the whole screen. -/
def draw (stepper : Stepper) (width height : Nat) : Canvas :=
  let area : Area := ⟨0, 0, width, height⟩
  let (headerArea, main, footerArea) := area.rows
  let (chartArea, sourceArea) := main.halves
  let canvas := Canvas.blank width height
  let canvas := canvas.putLines headerArea 0 [lineChars stepper.header]
  let canvas := stepper.drawChart chartArea canvas
  let canvas := stepper.drawSource sourceArea canvas
  let canvas := canvas.putLines footerArea 0 [lineChars (stepper.footer area.isCompact)]
  match stepper.help with
  | none => canvas
  | some scroll => drawHelp scroll main canvas

end ReductionStepper.Stepper
