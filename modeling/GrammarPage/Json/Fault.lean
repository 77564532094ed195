/-!
What a JSON reader can object to.
-/

namespace GrammarPage.Json

inductive Fault where
  | expectedValue
  | expectedName
  | expectedColon
  | expectedComma
  | trailing
  | byteOrderMark
  | unclosedText
  | controlCharacter
  | unknownEscape
  | brokenCodeEscape
  | longNumeral (digits : Nat)
  deriving DecidableEq, Repr

/-- A whole number of more digits than this is refused. -/
def digitLimit : Nat := 4300

def Fault.message : Fault → String
  | .expectedValue => "Expecting value"
  | .expectedName => "Expecting property name enclosed in double quotes"
  | .expectedColon => "Expecting ':' delimiter"
  | .expectedComma => "Expecting ',' delimiter"
  | .trailing => "Extra data"
  | .byteOrderMark => "Unexpected UTF-8 BOM (decode using utf-8-sig)"
  | .unclosedText => "Unterminated string starting at"
  | .controlCharacter => "Invalid control character at"
  | .unknownEscape => "Invalid \\escape"
  | .brokenCodeEscape => "Invalid \\uXXXX escape"
  | .longNumeral digits =>
      "Exceeds the limit (" ++ toString digitLimit ++
        " digits) for integer string conversion: value has " ++ toString digits ++
        " digits; use sys.set_int_max_str_digits() to increase the limit"

end GrammarPage.Json
