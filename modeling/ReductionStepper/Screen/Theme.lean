import ReductionStepper.Screen.Style
import ReductionStepper.Text.Digit
import ReductionStepper.Text.Layout
import ReductionStepper.Workbench

/-!
# Themes

A theme is either the terminal's own colours or a palette of five colours, which the environment
gives as five hexadecimal colours with commas between them.
-/

namespace ReductionStepper.Screen

/-- The colours of a theme. -/
structure Palette where
  foreground : Color
  background : Color
  accent : Color
  warning : Color
  error : Color
  deriving DecidableEq, Repr

/-- Why a palette cannot be read. -/
inductive PaletteError where
  | notUnicode
  | wrongCount (count : Nat)
  | badColor (text : String)
  deriving DecidableEq

/-- The variable of the environment that gives the palette. -/
def paletteVariable : String := "NANOSTEP_TUI_PALETTE"

/-- What is wrong with a palette. -/
def PaletteError.reason : PaletteError → String
  | .notUnicode => "<non-unicode>"
  | .wrongCount count =>
    "expected 5 comma-separated colors (fg,bg,accent,warning,error), got " ++ Nat.repr count
  | .badColor text => "invalid hex color: " ++ text ++ " (expected #RRGGBB)"

/-- The text of an error. -/
def PaletteError.message (error : PaletteError) : String :=
  "invalid env " ++ paletteVariable ++ ": " ++ error.reason

/-- The byte that two hexadecimal digits denote. -/
def hexByte? (high low : Char) : Option UInt8 := do
  return UInt8.ofNat ((← Text.hexValue? high) * 16 + (← Text.hexValue? low))

/-- The colour that six hexadecimal digits denote. -/
def hexColor? : List Char → Option Color
  | [r, r', g, g', b, b'] => do
    return .rgb (← hexByte? r r') (← hexByte? g g') (← hexByte? b b')
  | _ => none

/-- Reads a colour; a number sign may stand before its digits. -/
def readColor (text : List Char) : Except PaletteError Color :=
  let digits := match text with
    | '#' :: rest => rest
    | rest => rest
  match hexColor? digits with
  | some color => .ok color
  | none => .error (.badColor (String.ofList text))

/-- Reads five colours with commas between them. -/
def Palette.ofList (text : List Char) : Except PaletteError Palette :=
  match (Text.pieces ',' text).map Text.trimList with
  | [foreground, background, accent, warning, error] => do
    return {
      foreground := ← readColor foreground
      background := ← readColor background
      accent := ← readColor accent
      warning := ← readColor warning
      error := ← readColor error }
  | parts => .error (.wrongCount parts.length)

/-- What the environment holds for a variable. -/
inductive Setting where
  | unset
  | text (value : String)
  | notUnicode
  deriving DecidableEq

/-- A theme: a palette, or the terminal's own colours. -/
structure Theme where
  palette : Option Palette := none
  deriving DecidableEq

namespace Theme

/-- The theme that the environment asks for; a blank palette counts as none. -/
def ofSetting : Setting → Except PaletteError Theme
  | .unset => .ok {}
  | .notUnicode => .error .notUnicode
  | .text value =>
    match Text.trimList value.toList with
    | [] => .ok {}
    | text => do return ⟨some (← Palette.ofList text)⟩

/-- The style of plain text. -/
def base (theme : Theme) : Style :=
  match theme.palette with
  | none => .plain
  | some palette => (Style.plain.fg palette.foreground).bg palette.background

/-- The colour of what matters. -/
def accent (theme : Theme) : Color := (theme.palette.map Palette.accent).getD .lightGreen

/-- The colour of warnings. -/
def warning (theme : Theme) : Color := (theme.palette.map Palette.warning).getD .yellow

/-- The colour of errors. -/
def error (theme : Theme) : Color := (theme.palette.map Palette.error).getD .red

/-- The style of the border of a panel. -/
def border (theme : Theme) (focused : Bool) : Style :=
  if focused then theme.base.fg theme.accent else theme.base

/-- The style of the selected row. -/
def selection (theme : Theme) : Style := { theme.base with reversed := true, bold := true }

/-- The style of what stands back. -/
def dim (theme : Theme) : Style := theme.base.fg .darkGray

/-- The style of the highlighted part of the program. -/
def highlight (theme : Theme) : Style := ((theme.base.fg .black).bg theme.accent).bolded

/-- The style of the part of the program that a diagnostic covers. -/
def annotation (theme : Theme) : Style :=
  { theme.base.fg theme.error with underlined := true, bold := true }

/-- The style of a notice. -/
def notice (theme : Theme) (level : NoticeLevel) : Style :=
  let color := match level with
    | .info => theme.accent
    | .warning => theme.warning
    | .error => theme.error
  (theme.base.fg color).bolded

/-- The style of how the evaluation ended. -/
def outcome (theme : Theme) (stuck : Bool) : Style :=
  theme.notice (if stuck then .error else .info)

end Theme

end ReductionStepper.Screen
