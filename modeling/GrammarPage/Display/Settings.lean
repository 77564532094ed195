import GrammarPage.Display.Style
import GrammarPage.Json.Basic
import GrammarPage.Json.Fault
import GrammarPage.Text.WholeNumber

/-!
Display settings: a palette, the start symbol and a title. Settings are read leniently. A value that is
of no use leaves its default in place, style by style; an infinite colour component is the one thing
that is refused.
-/

namespace GrammarPage

structure Swatch where
  red : UInt8
  green : UInt8
  blue : UInt8
  italic : Bool
  deriving DecidableEq, Repr

def Swatch.css (swatch : Swatch) : Text :=
  "color:rgb(" ++ toString swatch.red.toNat ++ "," ++ toString swatch.green.toNat ++ ","
    ++ toString swatch.blue.toNat ++ ")" ++ if swatch.italic then (";font-style:italic" : Text) else ""

/-- A style may be missing from a palette. -/
abbrev Palette := Style → Option Swatch

namespace Palette

def defaultSwatch : Style → Swatch
  | .plainText => ⟨0, 0, 0, false⟩
  | .production => ⟨106, 90, 205, false⟩
  | .comment => ⟨0, 128, 0, false⟩
  | .terminal => ⟨163, 21, 21, false⟩
  | .extendedTerminal => ⟨0, 0, 0, true⟩

def default : Palette := fun style => some (defaultSwatch style)

def set (palette : Palette) (style : Style) (swatch : Swatch) : Palette :=
  fun other => if other = style then some swatch else palette other

def drop (palette : Palette) (style : Style) : Palette :=
  fun other => if other = style then none else palette other

end Palette

structure Settings where
  palette : Palette
  startSymbol : Text
  title : Option Text

def Settings.default : Settings := ⟨.default, "start", none⟩

namespace Settings

/-- Why a colour is not taken. -/
inductive Objection where
  | unusable
  | infinite
  deriving DecidableEq, Repr

/-- A colour component as a whole number; what lies after the point is dropped. -/
def component : Json → Except Objection Int
  | .bool value => .ok (if value then 1 else 0)
  | .int value => .ok value
  | .real (.finite negative mantissa exponent) => .ok (Binary64.truncate negative mantissa exponent)
  | .real (.infinite _) => .error .infinite
  | .str text => match Text.wholeNumber? Json.digitLimit text.toList with
    | some value => .ok value
    | none => .error .unusable
  | _ => .error .unusable

def octet? (value : Int) : Option UInt8 :=
  if 0 ≤ value && value ≤ 255 then some value.toNat.toUInt8 else none

/-- All three components are read before the range of any is looked at. -/
def swatchOf (italic : Bool) (red green blue : Json) : Except Objection Swatch := do
  let red ← component red
  let green ← component green
  let blue ← component blue
  match octet? red, octet? green, octet? blue with
  | some red, some green, some blue => return ⟨red, green, blue, italic⟩
  | _, _, _ => throw .unusable

def colour (italic : Bool) : Json → Except Objection Swatch
  | .list [red, green, blue] => swatchOf italic red green blue
  | _ => .error .unusable

/-- A colour is a list of three, or an object with such a list under "rgb" and a flag "italic". -/
def swatch (value : Json) : Except Objection Swatch :=
  match value with
  | .object _ => colour (value.get "italic").holds (value.get "rgb")
  | _ => colour false value

/-- The only way in which reading settings can fail. -/
inductive Fault where
  | infiniteComponent
  deriving DecidableEq, Repr

def Fault.message : Fault → Text
  | .infiniteComponent => "cannot convert float infinity to integer"

def readPalette (palette : Palette) : List (Text × Json) → Except Fault Palette
  | [] => .ok palette
  | (name, value) :: rest => match Style.ofName? name with
    | none => readPalette palette rest
    | some style => match swatch value with
      | .ok found => readPalette (palette.set style found) rest
      | .error .unusable => readPalette palette rest
      | .error .infinite => .error .infiniteComponent

/-- A setting, which may stand bare or wrapped in an object with the one member "value". -/
def setting (document : Json) (name : Text) : Json :=
  let entry := document.get name
  (entry.get? "value").getD entry

def paletteOf (document : Json) : Except Fault Palette :=
  match setting document "Palette" with
  | .object members => readPalette .default members
  | _ => .ok .default

def startSymbolOf (document : Json) : Text :=
  match setting document "StartSymbol" with
  | .str text => if text = "" then default.startSymbol else text
  | _ => default.startSymbol

def titleOf (document : Json) : Option Text :=
  match setting document "Title" with
  | .str text => some text
  | _ => none

/-- Settings from a document; one that is no object sets nothing. -/
def ofDocument (document : Json) : Except Fault Settings := do
  return ⟨← paletteOf document, startSymbolOf document, titleOf document⟩

def dropStyles (styles : List Style) (settings : Settings) : Settings :=
  { settings with palette := styles.foldl Palette.drop settings.palette }

end Settings

end GrammarPage
