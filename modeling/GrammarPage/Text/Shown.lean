import GrammarPage.Text.Hex
import GrammarPage.Text.Printable

/-!
A text as a message shows it: between quotes, with the quote, the backslash and everything that is
not printable escaped. The quote is single unless the text holds a single quote and no double one.
-/

namespace GrammarPage.Text

def quoteFor (text : List CodePoint) : Char :=
  if text.contains '\x27' && !text.contains '\x22' then '\x22' else '\x27'

/-- The escape of a code point by its number. -/
def numberEscape (number : Nat) : List Char :=
  if number ≤ 0xFF then '\\' :: 'x' :: hexDigits 2 number
  else if number ≤ 0xFFFF then '\\' :: 'u' :: hexDigits 4 number
  else '\\' :: 'U' :: hexDigits 8 number

def shownPoint (quote : Char) : CodePoint → List Char
  | .half offset => numberEscape (CodePoint.half offset).toNat
  | .char c =>
      if c = quote || c = '\\' then ['\\', c]
      else if c = '\n' then ['\\', 'n']
      else if c = '\r' then ['\\', 'r']
      else if c = '\t' then ['\\', 't']
      else if isPrintable c then [c]
      else numberEscape c.toNat

def shown (text : List CodePoint) : List Char :=
  let quote := quoteFor text
  quote :: text.flatMap (shownPoint quote) ++ [quote]

end GrammarPage.Text

namespace GrammarPage

def shownText (text : Text) : String := String.ofList (Text.shown text.toList)

end GrammarPage
