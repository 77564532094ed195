import GrammarPage.Proofs.Canonical.Flat
import GrammarPage.Proofs.Layout.Productions

/-!
A tree as it is shown against its canonical line. Comments and blanks apart, the tokens that show a tree
spell its canonical line. A production is shown in the same way, with a bar in front of a body that starts
on a new line.
-/

namespace GrammarPage

/-- The characters of a text that are not blank. -/
def ink (text : List CodePoint) : List CodePoint := text.filter (!Text.isBlank ·)

theorem ink_append (left right : List CodePoint) : ink (left ++ right) = ink left ++ ink right :=
  List.filter_append _ _

/-- What tokens write, one after the other. -/
def writtenBy (tokens : List Token) : List CodePoint := tokens.flatMap (·.text.toList)

/-- What a stream writes in ink, comments apart. -/
def streamInk (items : List Item) : List CodePoint :=
  ink (writtenBy ((tokensOf items).filter (·.style ≠ .comment)))

theorem stream_ink_append (left right : List Item) :
    streamInk (left ++ right) = streamInk left ++ streamInk right := by
  rw [streamInk, tokens_of_append, List.filter_append, writtenBy, List.flatMap_append, ink_append]
  rfl

section Items
variable (text : Text) (items : List Item)

theorem stream_ink_token {style : Style} (shows : style ≠ .comment) :
    streamInk (.token ⟨text, style⟩ :: items) = ink text.toList ++ streamInk items := by
  have tokens : tokensOf (.token ⟨text, style⟩ :: items) = ⟨text, style⟩ :: tokensOf items := rfl
  rw [streamInk, tokens, List.filter_cons_of_pos (by simpa using shows), writtenBy, List.flatMap_cons,
    ink_append]
  rfl

theorem stream_ink_plain : streamInk (Item.plain text :: items) = ink text.toList ++ streamInk items :=
  stream_ink_token text items (by decide)

end Items

theorem stream_ink_remark (mark : Text) (comment : Option Text) :
    streamInk (remarkItems mark comment) = [] := by
  rw [remarkItems]
  split <;> rfl

/-- Trivia leaves no ink outside comments: the indent of a new line is blank. -/
theorem stream_ink_trivia (trivia : Trivia) : streamInk trivia.items = [] := by
  have space : streamInk (spaceItems trivia.whitespace) = [] := by
    rw [spaceItems]
    split <;> rfl
  have newline : streamInk (if trivia.newline then [.lineBreak, Item.indent] else []) = [] := by
    split
    · decide
    · rfl
  rw [Trivia.items, stream_ink_append, stream_ink_append, space, stream_ink_remark, newline]
  rfl

/-- Both put the same parentheses around the same. -/
theorem stream_ink_grouped (grouped : Bool) {items : List Item} {chars : List CodePoint}
    (same : streamInk items = ink chars) :
    streamInk (if grouped then Item.parenthesized items else items) =
      ink (if grouped then parenthesized chars else chars) := by
  cases grouped with
  | false => exact same
  | true =>
      have opens : ink ("( " : Text).toList = ink [.char '(', .char ' '] := by decide
      have closes : streamInk [Item.plain " )"] = ink [.char ' ', .char ')'] := by decide
      calc streamInk (Item.parenthesized items)
          = ink ("( " : Text).toList ++ (streamInk items ++ streamInk [Item.plain " )"]) := by
            rw [Item.parenthesized, List.cons_append, stream_ink_plain, stream_ink_append]
        _ = ink ([.char '(', .char ' '] ++ (chars ++ [.char ' ', .char ')'])) := by
            rw [opens, closes, same, ← ink_append, ← ink_append]

theorem shown_text_chars (kind : Leaf) (text : Text) :
    (kind.shownText text).toList = kind.canonical text.toList := by
  cases kind <;> simp [Leaf.shownText, Leaf.canonical, quoteTerminal]

namespace Tree

theorem alternatives_ink {trees : List Tree}
    (same : ∀ tree ∈ trees, streamInk tree.items = ink tree.canonicalChars) :
    streamInk (alternativeItems trees) = ink (canonicalAlternatives trees) := by
  induction trees with
  | nil => rfl
  | cons tree rest ih =>
      have bar : ink ("| " : Text).toList = ink [.char ' ', .char '|', .char ' '] := by decide
      have later := ih fun other member => same other (List.mem_cons_of_mem _ member)
      calc streamInk (alternativeItems (tree :: rest))
          = ink ("| " : Text).toList ++ (streamInk tree.items ++ streamInk (alternativeItems rest)) := by
            rw [alternativeItems, List.cons_append, stream_ink_plain, stream_ink_append]
        _ = ink [.char ' ', .char '|', .char ' '] ++ (ink tree.canonicalChars ++ ink (canonicalAlternatives rest)) := by
            rw [bar, same tree List.mem_cons_self, later]
        _ = ink (canonicalAlternatives (tree :: rest)) := by
            rw [← ink_append, ← ink_append, canonicalAlternatives]
            rfl

theorem elements_ink {trees : List Tree} (indented : Bool)
    (same : ∀ tree ∈ trees, streamInk tree.items = ink tree.canonicalChars) :
    streamInk (elementItems indented trees) = ink (canonicalElements trees) := by
  induction trees generalizing indented with
  | nil => rfl
  | cons tree rest ih =>
      have gap : streamInk (if indented then [Item.plain "  "] else []) = ink [.char ' '] := by
        cases indented <;> decide
      have here : streamInk (tree.asElement tree.items) =
          ink (if tree.isChoice then parenthesized tree.canonicalChars else tree.canonicalChars) :=
        stream_ink_grouped tree.isChoice (same tree List.mem_cons_self)
      have later := ih (endsInIndent (tree.asElement tree.items))
        fun other member => same other (List.mem_cons_of_mem _ member)
      rw [elementItems, stream_ink_append, stream_ink_append, gap, here, later, ← ink_append,
        ← ink_append, canonicalElements]
      rfl

/-- Comments and blanks apart, a tree is shown as its canonical line. -/
theorem items_ink (tree : Tree) : streamInk tree.items = ink tree.canonicalChars := by
  induction tree with
  | leaf kind text trivia =>
      have style : kind.style ≠ .comment := by cases kind <;> decide
      rw [items, stream_ink_token _ _ style, shown_text_chars, stream_ink_trivia, List.append_nil,
        canonicalChars]
  | repeated repetition child trivia ih =>
      have mark : ink (Text.singleton repetition.mark).toList = ink [repetition.mark] := by
        cases repetition <;> decide
      rw [items, stream_ink_append, stream_ink_plain, stream_ink_trivia, List.append_nil, asOperand,
        stream_ink_grouped child.isGroup ih, mark, ← ink_append, canonicalChars]
  | choice first rest trivia ihFirst ihRest =>
      rw [items, stream_ink_append, stream_ink_append, stream_ink_trivia, List.append_nil, ihFirst,
        alternatives_ink ihRest, ← ink_append, canonicalChars]
  | sequence first rest trivia ihFirst ihRest =>
      rw [items, stream_ink_append, stream_ink_append, stream_ink_trivia, List.append_nil, asElement,
        stream_ink_grouped first.isChoice ihFirst, elements_ink _ ihRest, ← ink_append, canonicalChars]

end Tree

namespace Production

theorem opening_ink (production : Production) :
    streamInk production.opening = if production.startsOnNewLine then [.char '|'] else [] := by
  rw [opening]
  split
  · decide
  · decide

/-- Behind the colon of a production stand a bar, if the body starts on a new line, and the body. -/
theorem behind_colon_ink (production : Production) (body : Tree) :
    streamInk (production.behindColon body) =
      (if production.startsOnNewLine then [.char '|'] else [])
        ++ ink (.char ' ' :: body.canonicalChars ++ [.char ';']) := by
  have close : ink (";" : Text).toList = ink [.char ';'] := by decide
  have space : ink (.char ' ' :: body.canonicalChars ++ [.char ';']) = ink body.canonicalChars ++ ink [.char ';'] := by
    rw [List.cons_append, ← ink_append]
    rfl
  rw [behindColon, stream_ink_append, stream_ink_append, stream_ink_plain, opening_ink, body.items_ink,
    stream_ink_remark, List.append_nil, close, space, List.append_assoc]

/-- The bar is the only difference between what a production shows and its canonical line. -/
theorem items_ink {production : Production} {name : Text} {body : Tree}
    (named : production.name = some name) (bodied : production.body = some body) :
    streamInk production.items = ink (name.toList ++ [.char ':']) ++
      (if production.startsOnNewLine then [.char '|'] else [])
        ++ ink (.char ' ' :: body.canonicalChars ++ [.char ';']) := by
  have colon : ink (":" : Text).toList = ink [.char ':'] := by decide
  have closed : streamInk [.lineBreak] = [] := rfl
  rw [items_bodied bodied, named, Option.getD_some, stream_ink_token _ _ (by decide),
    stream_ink_token _ _ (by decide), stream_ink_append, behind_colon_ink, closed, List.append_nil, colon]
  simp only [ink_append, List.append_assoc]

end Production

/-- Comments and blanks apart, every tree is shown as its canonical line, and so is a production with a name
and a body, but for a bar behind the colon if the body starts on a new line. -/
theorem shown_as_canonical (body : Tree) (name : Text) (comment : Option Text) (startsOnNewLine : Bool) :
    let production : Production := ⟨some name, some body, comment, startsOnNewLine⟩
    let front := name ++ ":"
    let back := " " ++ body.canonical ++ ";"
    streamInk body.items = ink body.canonical.toList ∧ production.canonical = front ++ back ∧
      streamInk production.items =
        ink front.toList ++ (if startsOnNewLine then [.char '|'] else []) ++ ink back.toList := by
  intro production front back
  have named : production.name = some name := rfl
  have frontChars : front.toList = name.toList ++ [.char ':'] := Text.to_list_append
  have backChars : back.toList = .char ' ' :: body.canonicalChars ++ [.char ';'] := by
    simp [back, Tree.canonical]
  refine ⟨?_, ?_, ?_⟩
  · rw [Tree.canonical, Text.to_list_of_list, body.items_ink]
  · have colon : ((": " : String) : Text) = ":" ++ " " := rfl
    simp only [Production.canonical, Production.label, production, Option.getD_some, front, back, colon,
      Text.append_assoc]
  · rw [frontChars, backChars, Production.items_ink named rfl]

theorem bar_shown_not_canonical :
    let production : Production := ⟨some "A", some (.leaf .reference "B" .bare), none, true⟩
    streamInk production.items ≠ ink production.canonical.toList := by
  decide

end GrammarPage
