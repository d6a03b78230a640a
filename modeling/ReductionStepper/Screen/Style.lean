/-!
# Styles

Colours and modifiers of a piece of text, and lines of such pieces.
-/

namespace ReductionStepper.Screen

/-- A colour of the terminal, or one given by its parts. -/
inductive Color where
  | black
  | red
  | yellow
  | gray
  | darkGray
  | lightGreen
  | cyan
  | white
  | rgb (red green blue : UInt8)
  deriving DecidableEq, Repr

/-- The two lower-case hexadecimal digits of a byte. -/
def hexByte (n : UInt8) : List Char :=
  [Nat.digitChar (n.toNat / 16), Nat.digitChar (n.toNat % 16)]

/-- The name of a colour; one given by its parts is written with a sign and six digits. -/
def Color.name : Color → String
  | .black => "Black"
  | .red => "Red"
  | .yellow => "Yellow"
  | .gray => "Gray"
  | .darkGray => "DarkGray"
  | .lightGreen => "LightGreen"
  | .cyan => "Cyan"
  | .white => "White"
  | .rgb r g b => String.ofList ('#' :: hexByte r ++ hexByte g ++ hexByte b)

/-- How a piece of text is shown. -/
structure Style where
  foreground : Option Color := none
  background : Option Color := none
  bold : Bool := false
  underlined : Bool := false
  reversed : Bool := false
  deriving DecidableEq, Repr

namespace Style

/-- No colours and no modifiers. -/
def plain : Style := {}

/-- The style with another text colour. -/
def fg (style : Style) (color : Color) : Style := { style with foreground := some color }

/-- The style with another background. -/
def bg (style : Style) (color : Color) : Style := { style with background := some color }

/-- The style in bold. -/
def bolded (style : Style) : Style := { style with bold := true }

/-- The names of the modifiers in their order. -/
def modifiers (style : Style) : List String :=
  (if style.bold then ["BOLD"] else []) ++ (if style.underlined then ["UNDERLINED"] else []) ++
    (if style.reversed then ["REVERSED"] else [])

/-- The text of a style: its two colours and its modifiers. -/
def text (style : Style) : String :=
  let color (c : Option Color) := (c.map Color.name).getD "-"
  "/".intercalate
    [color style.foreground, color style.background, "+".intercalate style.modifiers]

end Style

/-- A piece of text in one style. -/
structure Run where
  text : String
  style : Style
  deriving DecidableEq

/-- A line of styled text. -/
abbrev Line := List Run

namespace Line

/-- The text of a line without its styles. -/
def text (line : Line) : String := String.join (line.map Run.text)

/-- The line without empty runs and with neighbours of one style joined. -/
def normal : Line → Line
  | [] => []
  | run :: later =>
    if run.text = "" then normal later
    else
      match normal later with
      | [] => [run]
      | next :: rest =>
        if run.style = next.style then ⟨run.text ++ next.text, run.style⟩ :: rest
        else run :: next :: rest

end Line

end ReductionStepper.Screen
