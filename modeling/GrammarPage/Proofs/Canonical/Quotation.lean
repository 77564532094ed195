import Mathlib.Algebra.Ring.Parity
import Mathlib.Data.List.DropRight
import Mathlib.Order.Bounds.Basic
import GrammarPage.Tree.Canonical

/-!
Quoted terminals as a prefix code: whatever follows the closing quote, the quoted text can be read off
the front, and nothing of what follows is taken for a part of it. The closing quote is the first one that is
not escaped, and escaping in one pass is the same as escaping one mark after the other.
-/

namespace GrammarPage

theorem quote_escape_cases (c : CodePoint) :
    ((c = '\\' ∨ c = '\x27' ∨ c = '\x22') ∧ quoteEscape c = [.char '\\', c]) ∨
      ((c ≠ '\\' ∧ c ≠ '\x27' ∧ c ≠ '\x22') ∧ quoteEscape c = [c]) := by
  by_cases marked : c = '\\' ∨ c = '\x27' ∨ c = '\x22'
  · refine .inl ⟨marked, ?_⟩
    rcases marked with rfl | rfl | rfl
    · rfl
    · rfl
    · rfl
  · obtain ⟨slash, single, double⟩ : c ≠ '\\' ∧ c ≠ '\x27' ∧ c ≠ '\x22' := by simpa using marked
    exact .inr ⟨⟨slash, single, double⟩, by simp [quoteEscape, slash, single, double]⟩

theorem quote_escape_cancel {left right : CodePoint} {x y : List CodePoint}
    (same : quoteEscape left ++ x = quoteEscape right ++ y) : left = right ∧ x = y := by
  -- A bare backslash is no written form, so only equally written characters can agree.
  rcases quote_escape_cases left with ⟨-, first⟩ | ⟨⟨bare, -⟩, first⟩
  · rcases quote_escape_cases right with ⟨-, second⟩ | ⟨⟨bare, -⟩, second⟩
    · rw [first, second] at same
      simpa using same
    · rw [first, second] at same
      exact absurd (List.cons.inj same).1.symm bare
  · rcases quote_escape_cases right with ⟨-, second⟩ | ⟨-, second⟩
    · rw [first, second] at same
      exact absurd (List.cons.inj same).1 bare
    · rw [first, second] at same
      simpa using same

theorem quote_escape_head (c : CodePoint) (x y : List CodePoint) : quoteEscape c ++ x ≠ .char '\x27' :: y := by
  rcases quote_escape_cases c with ⟨-, written⟩ | ⟨⟨-, bare, -⟩, written⟩
  · simp [written]
  · intro same
    rw [written] at same
    exact bare (List.cons.inj same).1

theorem quoted_body_cancel {left right x y : List CodePoint}
    (same : left.flatMap quoteEscape ++ .char '\x27' :: x = right.flatMap quoteEscape ++ .char '\x27' :: y) :
    left = right ∧ x = y := by
  induction left generalizing right with
  | nil =>
      cases right with
      | nil => simpa using same
      | cons d right =>
          rw [List.flatMap_cons, List.append_assoc] at same
          exact absurd same.symm (quote_escape_head d _ x)
  | cons c left ih =>
      cases right with
      | nil =>
          rw [List.flatMap_cons, List.append_assoc] at same
          exact absurd same (quote_escape_head c _ y)
      | cons d right =>
          simp only [List.flatMap_cons, List.append_assoc] at same
          obtain ⟨rfl, tail⟩ := quote_escape_cancel same
          obtain ⟨rfl, rest⟩ := ih tail
          exact ⟨rfl, rest⟩

theorem quoted_terminal_cancel {left right x y : List CodePoint}
    (same : quotedTerminal left ++ x = quotedTerminal right ++ y) : left = right ∧ x = y := by
  apply quoted_body_cancel
  simpa [quotedTerminal] using same

theorem quote_terminal_append_iff {left right x y : Text} :
    quoteTerminal left ++ x = quoteTerminal right ++ y ↔ left = right ∧ x = y := by
  constructor
  · intro same
    have chars := congrArg Text.toList same
    simp only [quoteTerminal, Text.to_list_append] at chars
    obtain ⟨texts, rest⟩ := quoted_terminal_cancel chars
    exact ⟨Text.to_list_inj.mp texts, Text.to_list_inj.mp rest⟩
  · rintro ⟨rfl, rfl⟩
    rfl

/-! Escaping one mark after the other. -/

/-- Puts another text in every place of a character. -/
def replaced (mark : CodePoint) (other text : List CodePoint) : List CodePoint :=
  text.flatMap fun c => if c = mark then other else [c]

-- The backslash comes first: later it would escape the backslashes of the quotes.
def escapedInTurn (text : List CodePoint) : List CodePoint :=
  replaced '\x22' [.char '\\', .char '\x22']
    (replaced '\x27' [.char '\\', .char '\x27'] (replaced '\\' [.char '\\', .char '\\'] text))

theorem replaced_append (mark : CodePoint) (other left right : List CodePoint) :
    replaced mark other (left ++ right) = replaced mark other left ++ replaced mark other right := by
  simp [replaced]

theorem escaped_in_turn_append (left right : List CodePoint) :
    escapedInTurn (left ++ right) = escapedInTurn left ++ escapedInTurn right := by
  simp only [escapedInTurn, replaced_append]

theorem escaped_in_turn_single (c : CodePoint) : escapedInTurn [c] = quoteEscape c := by
  rcases quote_escape_cases c with ⟨rfl | rfl | rfl, -⟩ | ⟨⟨slash, single, double⟩, written⟩
  · rfl
  · rfl
  · rfl
  · simp [escapedInTurn, replaced, written, slash, single, double]

theorem escaped_in_turn_exact (text : List CodePoint) : escapedInTurn text = text.flatMap quoteEscape := by
  induction text with
  | nil => rfl
  | cons c rest ih =>
      rw [← List.singleton_append, escaped_in_turn_append, escaped_in_turn_single, ih, List.flatMap_append,
        List.flatMap_singleton]

/-! Where a quoted text ends. -/

/-- How many backslashes stand together at the end of a text. -/
def slashes (front : List CodePoint) : Nat := (front.rtakeWhile (· = .char '\\')).length

/-- A single quote behind the first character, with no odd run of backslashes in front of it. -/
structure BareQuote (text : List CodePoint) (place : Nat) : Prop where
  behind : 0 < place
  quote : text[place]? = some (.char '\x27')
  bare : ¬ Odd (slashes (text.take place))

section Slashes
variable {front : List CodePoint}

theorem slashes_slash (front : List CodePoint) : slashes (front ++ [.char '\\']) = slashes front + 1 := by
  rw [slashes, List.rtakeWhile_concat_pos _ _ _ (by simp), List.length_append]
  rfl

theorem slashes_other {c : CodePoint} (other : c ≠ '\\') : slashes (front ++ [c]) = 0 := by
  rw [slashes, List.rtakeWhile_concat_neg _ _ _ (by simpa using other), List.length_nil]

/-- A character that is written leaves no backslash behind that could escape the next. -/
theorem even_escape (even : Even (slashes front)) (c : CodePoint) : Even (slashes (front ++ quoteEscape c)) := by
  have single (front : List CodePoint) (other : c ≠ '\\') : Even (slashes (front ++ [c])) := by
    rw [slashes_other other]
    exact Even.zero
  rcases quote_escape_cases c with ⟨-, written⟩ | ⟨⟨bare, -⟩, written⟩
  · have parts : front ++ [.char '\\', c] = (front ++ [.char '\\']) ++ [c] := by simp
    rw [written, parts]
    by_cases slash : c = '\\'
    · rw [slash, slashes_slash, slashes_slash]
      exact (even.add_one).add_one
    · exact single (front ++ [.char '\\']) slash
  · rw [written]
    exact single front bare

theorem even_body (even : Even (slashes front)) (text : List CodePoint) :
    Even (slashes (front ++ text.flatMap quoteEscape)) := by
  induction text generalizing front with
  | nil => simpa using even
  | cons c rest ih =>
      rw [List.flatMap_cons, ← List.append_assoc]
      exact ih (even_escape even c)

theorem escape_quote_odd (even : Even (slashes front)) {c : CodePoint} {before after : List CodePoint}
    (cut : quoteEscape c = before ++ .char '\x27' :: after) : Odd (slashes (front ++ before)) := by
  rcases quote_escape_cases c with ⟨-, written⟩ | ⟨⟨-, bare, -⟩, written⟩
  all_goals rw [written] at cut
  · -- The escape is two characters long, and its first is no quote.
    rcases before with _ | ⟨d, _ | ⟨e, before⟩⟩
    · simp at cut
    · obtain rfl : .char '\\' = d := (List.cons.inj cut).1
      rw [slashes_slash]
      exact even.add_one
    · simp at cut
  · rcases before with _ | ⟨d, before⟩
    · exact absurd (List.cons.inj cut).1 bare
    · simp at cut

/-- Every single quote inside a quoted text stands behind an odd run of backslashes. -/
theorem body_quote_odd (even : Even (slashes front)) {text before after : List CodePoint}
    (cut : text.flatMap quoteEscape = before ++ .char '\x27' :: after) : Odd (slashes (front ++ before)) := by
  induction text generalizing front before with
  | nil => simp at cut
  | cons c rest ih =>
      rw [List.flatMap_cons] at cut
      have settled := even_escape even c
      -- The quote is one of those the first character is written with, or stands behind all of them.
      rcases List.append_eq_append_iff.mp cut with ⟨more, rfl, later⟩ | ⟨more, here, later⟩
      · rw [← List.append_assoc]
        exact ih settled later
      · cases more with
        | nil =>
            rw [List.append_nil] at here
            have behind : Odd (slashes (front ++ quoteEscape c ++ [])) := ih settled later.symm
            rwa [List.append_nil, here] at behind
        | cons d more =>
            obtain rfl : .char '\x27' = d := (List.cons.inj later).1
            exact escape_quote_odd even here

end Slashes

/-- Whatever follows a quoted text, its closing quote is the first bare one. -/
theorem first_bare_quote (text rest : List CodePoint) :
    IsLeast {place | BareQuote (quotedTerminal text ++ rest) place} ((text.flatMap quoteEscape).length + 1) := by
  have parts : quotedTerminal text ++ rest =
      (.char '\x27' :: text.flatMap quoteEscape) ++ .char '\x27' :: rest := by simp [quotedTerminal]
  have opening : Even (slashes [.char '\x27']) := by decide
  rw [parts]
  constructor
  · refine ⟨Nat.succ_pos _, by simp, ?_⟩
    have front : ((.char '\x27' :: text.flatMap quoteEscape) ++ .char '\x27' :: rest).take
        ((text.flatMap quoteEscape).length + 1) = [.char '\x27'] ++ text.flatMap quoteEscape := List.take_left' rfl
    rw [front, Nat.not_odd_iff_even]
    exact even_body opening text
  · rintro place ⟨behind, quote, bare⟩
    by_contra early
    obtain ⟨inside, rfl⟩ : ∃ inside, place = inside + 1 := ⟨place - 1, by omega⟩
    have within : inside < (text.flatMap quoteEscape).length := by omega
    rw [List.cons_append, List.getElem?_cons_succ, List.getElem?_append_left within,
      List.getElem?_eq_getElem within, Option.some.injEq] at quote
    have cut : text.flatMap quoteEscape =
        (text.flatMap quoteEscape).take inside ++ .char '\x27' :: (text.flatMap quoteEscape).drop (inside + 1) := by
      rw [← quote, List.getElem_cons_drop, List.take_append_drop]
    have front : ((.char '\x27' :: text.flatMap quoteEscape) ++ .char '\x27' :: rest).take (inside + 1) =
        [.char '\x27'] ++ (text.flatMap quoteEscape).take inside := by
      rw [List.cons_append, List.take_succ_cons, List.take_append_of_le_length within.le]
      rfl
    rw [front] at bare
    exact bare (body_quote_odd opening cut)

/-- Quoted texts can be read off the front of anything. They are escaped alike mark by mark or in one pass,
and each ends at its first bare quote. -/
theorem quotation_exact (text rest : Text) :
    (∀ other more, quoteTerminal text ++ rest = quoteTerminal other ++ more ↔ text = other ∧ rest = more) ∧
      (quoteTerminal text).toList = .char '\x27' :: escapedInTurn text.toList ++ [.char '\x27'] ∧
      escapedInTurn text.toList = text.toList.flatMap quoteEscape ∧
      ∃ place, IsLeast {place | BareQuote (quoteTerminal text ++ rest).toList place} place ∧
        place + 1 = (quoteTerminal text).toList.length := by
  have chars : (quoteTerminal text).toList = quotedTerminal text.toList := Text.to_list_of_list
  refine ⟨fun other more => quote_terminal_append_iff, ?_, escaped_in_turn_exact text.toList,
    (text.toList.flatMap quoteEscape).length + 1, ?_, ?_⟩
  · rw [chars, escaped_in_turn_exact]
    rfl
  · rw [Text.to_list_append, chars]
    exact first_bare_quote text.toList rest.toList
  · simp [chars, quotedTerminal]

end GrammarPage
