import FeatureAtlas.Feature
import FeatureAtlas.Table
import FeatureAtlas.Text.Utf8

/-!
# Styles

Styled text stands between the code of its style and the reset code. A reset
inside the text ends the style too early, so the style's code follows it again.
Without colors a style changes nothing.
-/

namespace FeatureAtlas

/-- Environment variables; their values are bytes. -/
abbrev Environment := Table String Bytes

/-- The value of a variable; one that is no text counts as not set. -/
def Environment.text? (environment : Environment) (name : String) : Option String :=
  (environment.get? name).bind Utf8.text?

namespace Output

/-- How output is drawn. -/
structure Appearance where
  ascii : Bool
  colors : Bool
deriving DecidableEq, Repr

namespace Appearance

/-- Whether two texts agree but for the case of ASCII letters. -/
def sameIgnoringCase (left right : String) : Bool :=
  left.toList.map Char.toLower == right.toList.map Char.toLower

def standard : Appearance :=
  ⟨false, true⟩

/-- The appearance that environment variables ask for. -/
def ofEnvironment (environment : Environment) : Appearance where
  ascii :=
    match environment.text? "TRELLIS_ASCII" with
    | some value => value == "1" || sameIgnoringCase value "true"
    | none => false
  colors :=
    (environment.text? "NO_COLOR").isNone &&
      match environment.text? "TRELLIS_COLOR" with
      | some value => value != "0" && !sameIgnoringCase value "false"
      | none => true

/-- The appearance on a device, which may not show colors. -/
def onDevice (appearance : Appearance) (terminal : Bool) : Appearance :=
  { appearance with colors := appearance.colors && terminal }

end Appearance

/-- What a text means to the reader. -/
inductive Style
  | success
  | failure
  | warning
  | info
  | dimmed
  | bold
deriving DecidableEq, Repr

namespace Style

/-- The number of a style. -/
def number : Style → List Char
  | .success => ['3', '2']
  | .failure => ['3', '1']
  | .warning => ['3', '3']
  | .info => ['3', '6']
  | .dimmed => ['2']
  | .bold => ['1']

def escape : Char := '\x1b'

def code (style : Style) : List Char :=
  escape :: '[' :: style.number ++ ['m']

def reset : List Char :=
  [escape, '[', '0', 'm']

/-- A text in which a code follows every reset. -/
def resume (code : List Char) : List Char → List Char
  | '\x1b' :: '[' :: '0' :: 'm' :: rest => reset ++ code ++ resume code rest
  | character :: rest => character :: resume code rest
  | [] => []

/-- A text in a style. -/
def paint (style : Style) (appearance : Appearance) (text : String) : String :=
  if appearance.colors then
    String.ofList (style.code ++ resume style.code text.toList ++ reset)
  else text

end Style

/-- Where a feature belongs, in brackets. -/
def location (id : FeatureId) : String :=
  if id.group.isEmpty then
    "[" ++ id.product ++ "@" ++ id.version ++ "]"
  else
    "[" ++ id.product ++ "/" ++ id.group ++ "@" ++ id.version ++ "]"

/-- The title of a feature and where it belongs. -/
def featureText (appearance : Appearance) (id : FeatureId) : String :=
  Style.info.paint appearance id.title ++ " " ++
    Style.dimmed.paint appearance (location id)

/-- Lines with a line break after each. -/
def unlines (lines : List String) : String :=
  lines.foldl (fun text line => text ++ line ++ "\n") ""

end Output

end FeatureAtlas
