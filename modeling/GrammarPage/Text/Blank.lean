import GrammarPage.Text.Ranges

/-!
Blank characters, trimming, and words.
A word carries the blanks that follow it. Blanks in front of the first word stand alone, so the
pieces of a text always join to the text again.
-/

namespace GrammarPage.Text

-- The zero-width characters U+180E, U+200B, U+2060 and U+FEFF are not blank.
def blankRanges : List (Nat × Nat) :=
  [(0x09, 0x0D), (0x1C, 0x20), (0x85, 0x85), (0xA0, 0xA0), (0x1680, 0x1680), (0x2000, 0x200A),
    (0x2028, 0x2029), (0x202F, 0x202F), (0x205F, 0x205F), (0x3000, 0x3000)]

def isBlank (c : CodePoint) : Bool := within blankRanges c

def trimStart (text : List CodePoint) : List CodePoint := text.dropWhile isBlank

def trimEnd (text : List CodePoint) : List CodePoint := (text.reverse.dropWhile isBlank).reverse

def trim (text : List CodePoint) : List CodePoint := trimEnd (trimStart text)

/-- A break falls after a blank that stands in front of a character that is not blank. -/
def words : List CodePoint → List (List CodePoint)
  | [] => []
  | c :: rest => match words rest with
    | [] => [[c]]
    | word :: more =>
        if isBlank c && !word.head?.any isBlank then [c] :: word :: more
        else (c :: word) :: more

theorem words_flatten (text : List CodePoint) : (words text).flatten = text := by
  induction text with
  | nil => rfl
  | cons c rest ih =>
      simp only [words]
      split <;> rename_i found <;> rw [found] at ih
      · simp_all
      · split <;> simp_all

end GrammarPage.Text

namespace GrammarPage

/-- A text of blanks only; the empty text is one. -/
def blank (text : Text) : Bool := text.toList.all Text.isBlank

def trimmed (text : Text) : Text := Text.ofList (Text.trim text.toList)

def trimmedEnd (text : Text) : Text := Text.ofList (Text.trimEnd text.toList)

end GrammarPage
