import GrammarPage.Text.Blank
import GrammarPage.Text.Digit

/-!
Whole numbers as people write them into a text: blanks around, one sign, digits of any script, and
single underscores between digits.
-/

namespace GrammarPage.Text

-- The four information separators are blank elsewhere, but not around a number.
def isMargin (c : CodePoint) : Bool := isBlank c && !within [(0x1C, 0x1F)] c

def trimMargin (text : List CodePoint) : List CodePoint :=
  ((text.dropWhile isMargin).reverse.dropWhile isMargin).reverse

/-- The values of digits that stand one after another or with one underscore between them. -/
def digitValues? : List CodePoint → Option (List Nat)
  | [] => none
  | [c] => (digitValue? c).map ([·])
  | c :: '_' :: rest => do return (← digitValue? c) :: (← digitValues? rest)
  | c :: rest => do return (← digitValue? c) :: (← digitValues? rest)

def splitSign : List CodePoint → Bool × List CodePoint
  | '-' :: rest => (true, rest)
  | '+' :: rest => (false, rest)
  | text => (false, text)

def ofDigitValues (values : List Nat) : Nat := values.foldl (fun total value => total * 10 + value) 0

/-- The number a text spells with at most `limit` digits. -/
def wholeNumber? (limit : Nat) (text : List CodePoint) : Option Int :=
  let split := splitSign (trimMargin text)
  (digitValues? split.2).bind fun values =>
    if limit < values.length then none
    else some (if split.1 then -(ofDigitValues values : Int) else ofDigitValues values)

end GrammarPage.Text
