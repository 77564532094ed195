import GrammarPage.Json.Numeral
import GrammarPage.Json.Quoted
import GrammarPage.Text.After

/-!
The tokens of a JSON text. Every text has tokens: a quoted text that breaks off and a character that
begins no token are tokens too, and only reading decides whether they are at fault.
-/

namespace GrammarPage.Json

inductive Token where
  | openList
  | closeList
  | openObject
  | closeObject
  | colon
  | comma
  | str (value : Text)
  | scalar (value : Json)
  | numeral (numeral : Numeral)
  | brokenText (fault : Fault) (suffix : List Char)
  | stray

/-- A token with the text from its first character on. -/
structure Lexeme where
  token : Token
  suffix : List Char

def keywords : List (String × Json) :=
  [("null", .null), ("true", .bool true), ("false", .bool false), ("NaN", .real .nan),
    ("Infinity", .real (.infinite false)), ("-Infinity", .real (.infinite true))]

def scanKeyword (text : List Char) : Option (Token × List Char) :=
  keywords.findSome? fun keyword =>
    (Text.after? keyword.1.toList text).map fun rest => (.scalar keyword.2, rest)

def punctuation? (c : Char) : Option Token :=
  if c = '[' then some .openList
  else if c = ']' then some .closeList
  else if c = '\x7b' then some .openObject
  else if c = '\x7d' then some .closeObject
  else if c = ':' then some .colon
  else if c = ',' then some .comma
  else none

/-- The text after an opening quote; one that breaks off is a token of the quote alone. -/
def scanQuoted (quote : Char) (rest : List Char) : Token × List Char :=
  match scanText rest with
  | .closed content after => (.str (Text.ofList (joinPairs content)), after)
  | .unclosed => (.brokenText .unclosedText (quote :: rest), rest)
  | .broken fault suffix => (.brokenText fault suffix, rest)

def scanWord (c : Char) (rest : List Char) : Token × List Char :=
  match scanKeyword (c :: rest) with
  | some found => found
  | none => match scanNumeral (c :: rest) with
    | some (numeral, after) => (.numeral numeral, after)
    | none => (.stray, rest)

def nextToken (c : Char) (rest : List Char) : Token × List Char :=
  match punctuation? c with
  | some token => (token, rest)
  | none => if c = '\x22' then scanQuoted c rest else scanWord c rest

theorem scan_quoted_le (quote : Char) (rest : List Char) :
    (scanQuoted quote rest).2.length ≤ rest.length := by
  unfold scanQuoted
  cases found : scanText rest with
  | closed content after =>
      exact Nat.le_of_lt (scan_text_shorter (by rw [found]; rfl))
  | unclosed => exact Nat.le_refl _
  | broken fault suffix => exact Nat.le_refl _

theorem scan_keyword_lt {text : List Char} {found : Token × List Char}
    (taken : scanKeyword text = some found) : found.2.length < text.length := by
  obtain ⟨keyword, known, matched⟩ := List.exists_of_findSome?_eq_some taken
  obtain ⟨rest, fits, rfl⟩ := Option.map_eq_some_iff.mp matched
  have spelled : ∀ keyword ∈ keywords, keyword.1.toList ≠ [] := by decide
  have := List.length_pos_iff.mpr (spelled keyword known)
  have := congrArg List.length (Text.after_eq_some_iff.mp fits)
  simp only [List.length_append] at this ⊢
  omega

theorem scan_word_le (c : Char) (rest : List Char) : (scanWord c rest).2.length ≤ rest.length := by
  unfold scanWord
  split
  · rename_i found taken
    have := scan_keyword_lt taken
    simp only [List.length_cons] at this
    omega
  · split
    · rename_i taken
      have := scan_numeral_lt taken
      simp only [List.length_cons] at this ⊢
      omega
    · exact Nat.le_refl _

theorem next_token_le (c : Char) (rest : List Char) : (nextToken c rest).2.length ≤ rest.length := by
  unfold nextToken
  split
  · exact Nat.le_refl _
  · split
    · exact scan_quoted_le c rest
    · exact scan_word_le c rest

def isSpace (c : Char) : Bool := c = ' ' || c = '\t' || c = '\n' || c = '\r'

def lexemes : List Char → List Lexeme
  | [] => []
  | c :: rest =>
      if isSpace c then lexemes rest
      else ⟨(nextToken c rest).1, c :: rest⟩ :: lexemes (nextToken c rest).2
  termination_by text => text.length
  decreasing_by
    · simp
    · have := next_token_le c rest
      simp only [List.length_cons]
      omega

end GrammarPage.Json
