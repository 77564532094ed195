import GrammarPage.Text.Hex
import GrammarPage.Text.Basic

/-!
Texts on their way out. A file and the standard output take characters alone, so a text with a half of a pair in
it is refused; a message shows such a half by its number.
-/

namespace GrammarPage

/-- Where a text cannot be written: the offset of a half of a pair, and the halves that stand there together. -/
structure EncodeFault where
  offset : Nat
  halves : List CodePoint
  deriving DecidableEq, Repr

namespace Text

/-- A code point as it appears in a message. -/
def reportedPoint : CodePoint → List Char
  | .char c => [c]
  | .half offset => '\\' :: 'u' :: hexDigits 4 (CodePoint.half offset).toNat

def reported (text : Text) : String := String.ofList (text.toList.flatMap reportedPoint)

/-- The fault at the first code point that will not do. -/
def faultAt (refuses : CodePoint → Bool) (text : List CodePoint) : EncodeFault :=
  let before := text.takeWhile (!refuses ·)
  ⟨before.length, (text.drop before.length).takeWhile CodePoint.isHalf⟩

/-- The text as a string of characters. -/
def encoded (text : Text) : Except EncodeFault String :=
  match text.toList.mapM CodePoint.char? with
  | some chars => .ok (String.ofList chars)
  | none => .error (faultAt CodePoint.isHalf text.toList)

/-- A text without a half of a pair. -/
def Whole (text : Text) : Prop := ∀ c ∈ text.toList, c.isHalf = false

instance (text : Text) : Decidable text.Whole :=
  inferInstanceAs (Decidable (∀ c ∈ text.toList, c.isHalf = false))

end Text

def EncodeFault.message (fault : EncodeFault) : String :=
  let place := match fault.halves with
    | [half] => "character '" ++ String.ofList (Text.reportedPoint half) ++ "' in position " ++ toString fault.offset
    | halves => "characters in position " ++ toString fault.offset ++ "-"
        ++ toString (fault.offset + halves.length - 1)
  "'utf-8' codec can't encode " ++ place ++ ": surrogates not allowed"

end GrammarPage
