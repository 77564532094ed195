import GrammarPage.Display.Page
import GrammarPage.Proofs.Layout.Declared

/-!
Where a stream is cut. A line break closes a segment for good, so streams that end in one are cut apart
from whatever follows them; the grammar's segments are those of its productions.
-/

namespace GrammarPage

theorem segments_append_break (left right : List Item) :
    segments (left ++ .lineBreak :: right) =
      ((segments left).1 ++ (segments left).2 :: (segments right).1, (segments right).2) := by
  induction left with
  | nil => rfl
  | cons item rest ih =>
      cases item with
      | lineBreak => simp [segments, ih]
      | token token =>
          rw [List.cons_append, segments, ih]
          rcases cut : segments rest with ⟨broken, last⟩
          cases broken <;> simp [segments, cut]

/-- A closed stream is cut in the same way in front of any other. -/
theorem segments_closed {items front : List Item} (closed : items = front ++ [.lineBreak])
    (rest : List Item) :
    segments (items ++ rest) = ((segments items).1 ++ (segments rest).1, (segments rest).2) := by
  subst closed
  rw [List.append_assoc, List.singleton_append, segments_append_break, segments_append_break]
  simp [segments]

theorem segment_within {items : List Item} {segment : List Token} (member : segment ∈ (segments items).1) :
    segment.map .token <:+: items := by
  obtain ⟨before, after, cut⟩ := List.append_of_mem member
  have joined := join_segments items
  rw [cut, joinSegments, List.flatMap_append, List.flatMap_cons] at joined
  exact ⟨before.flatMap fun segment => segment.map .token ++ [.lineBreak],
    .lineBreak :: (after.flatMap (fun segment => segment.map .token ++ [.lineBreak])
      ++ (segments items).2.map .token), by simpa using joined⟩

def Item.token? : Item → Option Token
  | .token styled => some styled
  | .lineBreak => none

def tokensOf (items : List Item) : List Token := items.filterMap Item.token?

theorem tokens_of_append (left right : List Item) :
    tokensOf (left ++ right) = tokensOf left ++ tokensOf right := List.filterMap_append

theorem tokens_of_map (tokens : List Token) : tokensOf (tokens.map .token) = tokens := by
  induction tokens with
  | nil => rfl
  | cons token rest ih => rw [List.map_cons, tokensOf, List.filterMap_cons, Item.token?, ← tokensOf, ih]

/-- Cutting leaves the tokens in their order. -/
theorem segments_flatten (items : List Item) :
    (segments items).1.flatten ++ (segments items).2 = tokensOf items := by
  have pieces : ∀ broken last, tokensOf (joinSegments broken last) = broken.flatten ++ last := by
    intro broken last
    induction broken with
    | nil => simp [joinSegments, tokens_of_map]
    | cons segment broken ih =>
        rw [join_segments_cons, tokens_of_append, tokens_of_map, List.flatten_cons, List.append_assoc,
          ← ih]
        rfl
  rw [← pieces, join_segments]

namespace Production

theorem items_closed (production : Production) :
    ∃ front, production.items = front ++ [.lineBreak] := by
  unfold items
  split
  · exact ⟨_, rfl⟩
  · exact ⟨_, rfl⟩

/-- Nothing is left over behind the last line break of a production. -/
theorem last_segment (production : Production) : (segments production.items).2 = [] := by
  obtain ⟨front, closed⟩ := production.items_closed
  rw [closed, segments_append_break]
  rfl

end Production

namespace Grammar

theorem segments_productions (productions : List Production) :
    segments (productions.flatMap (·.items)) =
      (productions.flatMap fun production => (segments production.items).1, []) := by
  induction productions with
  | nil => rfl
  | cons production rest ih =>
      obtain ⟨front, closed⟩ := production.items_closed
      rw [List.flatMap_cons, segments_closed closed, ih, List.flatMap_cons]

/-- The lines of a grammar, production by production. -/
theorem lines_exact (grammar : Grammar) :
    grammar.lines = dropBlankFirst ((grammar.productions.flatMap fun production =>
      (segments production.items).1).map segmentLine) := by
  -- Every production ends in a line break, so nothing is left over behind the last.
  have last : segmentLine [] = [] := rfl
  rw [lines, laid_out_exact, laidOut, items, segments_productions, if_pos last, List.append_nil]

end Grammar

end GrammarPage
