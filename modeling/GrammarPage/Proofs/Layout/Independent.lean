import GrammarPage.Proofs.Layout.Productions
import GrammarPage.Proofs.Tree.Induction

/-!
Productions are laid out one by one. Each ends its last line itself and begins its first with text that
shows, so no run and no line goes on from one to the next. How many lines a production takes is told by the
flags of its nodes.
-/

namespace GrammarPage

/-- The line breaks in a stream. -/
def breaks (items : List Item) : Nat := items.count .lineBreak

section Breaks

@[simp]
theorem breaks_append (left right : List Item) : breaks (left ++ right) = breaks left + breaks right :=
  List.count_append

@[simp]
theorem breaks_token (token : Token) (items : List Item) : breaks (.token token :: items) = breaks items :=
  List.count_cons_of_ne (by simp)

@[simp]
theorem breaks_plain (text : Text) (items : List Item) :
    breaks (Item.plain text :: items) = breaks items :=
  breaks_token _ _

@[simp]
theorem breaks_break (items : List Item) : breaks (.lineBreak :: items) = breaks items + 1 :=
  List.count_cons_self

@[simp]
theorem breaks_nil : breaks [] = 0 := rfl

@[simp]
theorem breaks_remark (mark : Text) (comment : Option Text) : breaks (remarkItems mark comment) = 0 := by
  rw [remarkItems]
  split <;> rfl

@[simp]
theorem breaks_space (whitespace : Text) : breaks (spaceItems whitespace) = 0 := by
  rw [spaceItems]
  split <;> rfl

@[simp]
theorem breaks_trivia (trivia : Trivia) : breaks trivia.items = if trivia.newline then 1 else 0 := by
  rw [Trivia.items]
  split <;> simp [Item.indent]

@[simp]
theorem breaks_parenthesized (items : List Item) : breaks (Item.parenthesized items) = breaks items := by
  simp [Item.parenthesized]

/-- A stream is cut once for each of its line breaks. -/
theorem segments_length (items : List Item) : (segments items).1.length = breaks items := by
  induction items with
  | nil => rfl
  | cons item rest ih =>
      cases item with
      | lineBreak => simp [segments, ih]
      | token token =>
          rcases cut : segments rest with ⟨broken, last⟩
          rw [cut] at ih
          cases broken <;> simpa [segments, cut] using ih

end Breaks

namespace Tree

@[simp]
theorem breaks_element (tree : Tree) (items : List Item) : breaks (tree.asElement items) = breaks items := by
  rw [asElement]
  split <;> simp

@[simp]
theorem breaks_operand (tree : Tree) (items : List Item) : breaks (tree.asOperand items) = breaks items := by
  rw [asOperand]
  split <;> simp

theorem breaks_alternatives (trees : List Tree) :
    breaks (alternativeItems trees) = breaks (trees.flatMap items) := by
  induction trees with
  | nil => rfl
  | cons tree rest ih => simp [alternativeItems, ih]

theorem breaks_elements (indented : Bool) (trees : List Tree) :
    breaks (elementItems indented trees) = breaks (trees.flatMap items) := by
  induction trees generalizing indented with
  | nil => rfl
  | cons tree rest ih => cases indented <;> simp [elementItems, ih]

/-- A node breaks the line where its children do, and otherwise only in its own trivia. -/
theorem breaks_node (tree : Tree) :
    breaks tree.items = breaks (tree.children.flatMap items) + breaks tree.trivia.items := by
  cases tree with
  | leaf kind text trivia => simp [items, children, Tree.trivia]
  | repeated repetition child trivia => simp [items, children, Tree.trivia]
  | choice first rest trivia => simp [items, children, Tree.trivia, breaks_alternatives, Nat.add_assoc]
  | sequence first rest trivia => simp [items, children, Tree.trivia, breaks_elements, Nat.add_assoc]

theorem breaks_children {trees : List Tree}
    (flagged : ∀ tree ∈ trees, breaks tree.items = tree.walk.countP (·.trivia.newline)) :
    breaks (trees.flatMap items) = (trees.flatMap walk).countP (·.trivia.newline) := by
  induction trees with
  | nil => rfl
  | cons tree rest ih =>
      rw [List.flatMap_cons, breaks_append, flagged tree List.mem_cons_self,
        ih fun other member => flagged other (List.mem_cons_of_mem tree member), List.flatMap_cons,
        List.countP_append]

/-- There is a line break for each node of the walk that is flagged, and no other. -/
theorem breaks_items (tree : Tree) : breaks tree.items = tree.walk.countP (·.trivia.newline) := by
  induction tree using induct_children with
  | node tree ih =>
      rw [breaks_node, breaks_trivia, breaks_children ih, walk_exact, List.countP_cons]

end Tree

namespace Production

/-- Neither a body nor a comment to show. -/
def silent (production : Production) : Bool :=
  production.body.isNone && (filled production.comment).isNone

/-- The lines that a production gives alone. A silent one gives an empty line. -/
def lines (production : Production) : List Line :=
  if production.silent then [[]] else linesOf production.items

theorem segments_silent {production : Production} (silent : production.silent = true) :
    segments production.items = ([[]], []) := by
  obtain ⟨bodiless, unremarked⟩ : production.body = none ∧ filled production.comment = none := by
    simpa [Production.silent] using silent
  rw [items_bodiless bodiless, remarkItems, unremarked]
  rfl

/-- The first line shows the colon behind the name, or the mark of the comment. -/
theorem first_line_shows {production : Production} (shown : production.silent = false) :
    ∃ first rest, (segments production.items).1.map segmentLine = first :: rest ∧ first ≠ [] := by
  cases bodied : production.body with
  | some body =>
      obtain ⟨behind, more, -, cut, -⟩ := segments_bodied bodied
      have colon : (⟨":", .plainText⟩ : Token) ∈
          (⟨production.name.getD "", .production⟩ :: ⟨":", .plainText⟩ :: behind : List Token) := by simp
      rw [cut]
      exact ⟨_, _, rfl, segment_line_shows colon (by decide)⟩
  | none =>
      obtain ⟨text, remarked⟩ : ∃ text, filled production.comment = some text := by
        simpa [Production.silent, bodied, Option.isSome_iff_exists, ← Option.isSome_iff_ne_none] using shown
      rw [items_bodiless bodied, remarkItems, remarked]
      refine ⟨_, [], rfl, segment_line_shows List.mem_cons_self ?_⟩
      have mark : blank "// " = false := by decide
      simp [Token.visible, blank_append, mark]

/-- Alone or among others, a production has one line for each of its segments. -/
theorem lines_segments (production : Production) :
    production.lines = (segments production.items).1.map segmentLine := by
  cases silent : production.silent with
  | true =>
      rw [lines, if_pos silent, segments_silent silent]
      rfl
  | false =>
      have ending : segmentLine [] = [] := rfl
      obtain ⟨first, rest, lines, shows⟩ := first_line_shows silent
      rw [Production.lines, silent, if_neg Bool.false_ne_true, laid_out_exact, laidOut,
        production.last_segment, if_pos ending, lines, drop_blank_first_shown shows, List.append_nil]

theorem lines_length (production : Production) : production.lines.length = breaks production.items := by
  rw [lines_segments, List.length_map, segments_length]

theorem breaks_bodiless {production : Production} (bodiless : production.body = none) :
    breaks production.items = 1 := by
  simp [items_bodiless bodiless]

theorem breaks_bodied {production : Production} {body : Tree} (bodied : production.body = some body) :
    breaks production.items =
      1 + (if production.startsOnNewLine then 1 else 0) + body.walk.countP (·.trivia.newline) := by
  have opening : breaks production.opening = if production.startsOnNewLine then 1 else 0 := by
    rw [opening]
    split <;> simp [Item.indent]
  have rest : breaks (production.behindColon body) =
      (if production.startsOnNewLine then 1 else 0) + body.walk.countP (·.trivia.newline) := by
    simp [behindColon, opening, body.breaks_items]
  rw [items_bodied bodied, breaks_token, breaks_token, breaks_append, rest]
  exact (Nat.add_comm _ _).trans (Nat.add_assoc _ _ _).symm

end Production

namespace Grammar

theorem lines_productions (grammar : Grammar) :
    grammar.lines = dropBlankFirst (grammar.productions.flatMap (·.lines)) := by
  simp only [lines_exact, List.map_flatMap, Production.lines_segments]

/-- The lines of a grammar are those of its productions, each laid out alone; only the empty line of a silent
production is dropped where it comes first. Without a body a production has one line, and with one a line
that shows and one more for each line break that it asks for. -/
theorem lines_independent (grammar : Grammar) :
    grammar.lines =
      (if grammar.productions.head?.any Production.silent then grammar.productions.tail
        else grammar.productions).flatMap (·.lines) ∧
    ∀ production : Production,
      (production.body = none → production.lines.length = 1) ∧
      ∀ body, production.body = some body →
        production.lines.length =
          1 + (if production.startsOnNewLine then 1 else 0) + body.walk.countP (·.trivia.newline) ∧
        ∃ first rest, production.lines = first :: rest ∧ first ≠ [] := by
  refine ⟨?_, fun production => ⟨fun bodiless => ?_, fun body bodied => ⟨?_, ?_⟩⟩⟩
  · rw [lines_productions]
    cases grammar.productions with
    | nil => rfl
    | cons production rest =>
        cases silent : production.silent with
        | true => simp [silent, Production.lines, dropBlankFirst]
        | false =>
            obtain ⟨first, more, lines, shows⟩ := Production.first_line_shows silent
            rw [← Production.lines_segments] at lines
            simp [silent, lines, drop_blank_first_shown shows]
  · rw [Production.lines_length, Production.breaks_bodiless bodiless]
  · rw [Production.lines_length, Production.breaks_bodied bodied]
  · have shown : production.silent = false := by simp [Production.silent, bodied]
    rw [Production.lines_segments]
    exact Production.first_line_shows shown

theorem lines_independent_flagged :
    let body : Tree := .sequence (.leaf .reference "B" ⟨" ", none, true⟩) [.leaf .terminal "x" .bare] .bare
    let rule : Production := ⟨some "A", some body, some "first", true⟩
    let remark : Production := ⟨some "B", none, some "second", true⟩
    let silent : Production := ⟨none, none, some "", false⟩
    let grammar : Grammar := ⟨[silent, rule, silent, remark], none, .empty⟩
    grammar.lines = [rule, silent, remark].flatMap (·.lines) ∧
      remark.body = none ∧ remark.lines.length = 1 ∧
      rule.body = some body ∧ rule.lines.length = 3 ∧ ∃ first rest, rule.lines = first :: rest ∧ first ≠ [] := by
  intro body rule remark silent grammar
  obtain ⟨whole, each⟩ := lines_independent grammar
  obtain ⟨count, shows⟩ := (each rule).2 body rfl
  exact ⟨whole, rfl, (each remark).1 rfl, rfl, count, shows⟩

end Grammar

end GrammarPage
