import GrammarPage.Text.Basic

/-!
Line ends. A carriage return with a line feed after it, a lone carriage return and a lone line feed
each end one line.
-/

namespace GrammarPage.Text

/-- Writes every line end of a file as one line feed. -/
def unifyLineEnds : List Char → List Char
  | [] => []
  | '\r' :: '\n' :: rest => '\n' :: unifyLineEnds rest
  | c :: rest => (if c = '\r' then '\n' else c) :: unifyLineEnds rest

theorem unify_bare {text : List Char} (bare : '\r' ∉ text) : unifyLineEnds text = text := by
  induction text with
  | nil => rfl
  | cons c rest ih =>
      have other : c ≠ '\r' := fun same => bare (by simp [same])
      rw [unifyLineEnds, if_neg other, ih (List.not_mem_of_not_mem_cons bare)]
      exact fun _ same _ => other same

def endsLine (c : CodePoint) : Bool := c = '\r' || c = '\n'

/-- The pieces between line ends, of which there is always one more than there are line ends. -/
def splitLines : List CodePoint → List (List CodePoint)
  | [] => [[]]
  | '\r' :: '\n' :: rest => [] :: splitLines rest
  | c :: rest =>
      if endsLine c then [] :: splitLines rest
      else match splitLines rest with
        | [] => [[c]]
        | piece :: more => (c :: piece) :: more

/-- The lines of a text; a line end at the very end of the text opens no further line. -/
def lines (text : List CodePoint) : List (List CodePoint) :=
  let pieces := splitLines text
  if pieces.getLast? = some [] then pieces.dropLast else pieces

end GrammarPage.Text
