import GrammarPage.Proofs.Layout.Leaves

/-!
What a tree ends in. It is told by one node, the last that shows something behind its children: a line break with
an indent if that node asks for one, or else its comment, its space, its name or a mark. A name or a space may be
a tab, and then it reads as an indent without being one.
-/

namespace GrammarPage

/-- The line is broken and indented at the end of these items. -/
def EndsBroken (items : List Item) : Prop := [.lineBreak, Item.indent] <:+ items

/-- The last token reads as an indent, but is shown in the style of something else. -/
def EndsInTab (items : List Item) : Prop :=
  ∃ style, style ≠ .plainText ∧ items.getLast? = some (.token ⟨Item.indentText, style⟩)

section Ends
variable {front items : List Item}

theorem last_of_broken (broken : EndsBroken items) : items.getLast? = some Item.indent := by
  obtain ⟨front, rfl⟩ := broken
  simp

/-- An indent is shown plain, so nothing that ends broken ends in another tab. -/
theorem broken_not_tab (broken : EndsBroken items) : ¬ EndsInTab items := by
  rintro ⟨style, other, last⟩
  rw [last_of_broken broken] at last
  apply other
  simpa [Item.indent, Item.plain, eq_comm] using last

end Ends

theorem remark_no_indent (text : Text) : " //" ++ text ≠ Item.indentText := by
  intro same
  have first := congrArg (·.toList.head?) same
  simp [Item.indentText] at first

theorem quoted_no_indent (text : Text) : quoteTerminal text ≠ Item.indentText := by
  intro same
  have first := congrArg (·.toList.head?) same
  simp [quoteTerminal, quotedTerminal, Item.indentText] at first

theorem mark_no_indent (repetition : Repetition) : Text.singleton repetition.mark ≠ Item.indentText := by
  cases repetition <;> decide

theorem Trivia.items_last (trivia : Trivia) :
    trivia.items.getLast? =
      if trivia.newline then some Item.indent
      else match filled trivia.comment with
        | some text => some (Item.comment (" //" ++ text))
        | none => if trivia.whitespace = "" then none else some (Item.comment trivia.whitespace) := by
  rw [Trivia.items, remarkItems, spaceItems]
  cases trivia.newline <;> cases filled trivia.comment <;> by_cases empty : trivia.whitespace = "" <;>
    simp [empty]

namespace Tree

/-- What a node shows between its children and its trivia. A choice that ends a sequence is closed by a
parenthesis of the sequence. -/
def ownMark? : Tree → Option Item
  | .leaf kind text _ => some (.token ⟨kind.shownText text, kind.style⟩)
  | .repeated repetition _ _ => some (Item.plain (Text.singleton repetition.mark))
  | .choice _ _ _ => none
  | .sequence first rest _ => if (rest.getLastD first).isChoice then some (Item.plain " )") else none

/-- What a node shows behind its children. -/
def ownEnd (tree : Tree) : List Item := tree.ownMark?.toList ++ tree.trivia.items

mutual
/-- The node that shows the end of a tree: the tree itself, or else the node that does so for its last child. -/
def closing : Tree → Tree
  | .leaf kind text trivia => .leaf kind text trivia
  | .repeated repetition child trivia => .repeated repetition child trivia
  | .choice first rest trivia =>
      if ownEnd (.choice first rest trivia) = [] then lastClosing (closing first) rest
      else .choice first rest trivia
  | .sequence first rest trivia =>
      if ownEnd (.sequence first rest trivia) = [] then lastClosing (closing first) rest
      else .sequence first rest trivia

def lastClosing (before : Tree) : List Tree → Tree
  | [] => before
  | tree :: rest => lastClosing (closing tree) rest
end

theorem last_closing_exact (first : Tree) (rest : List Tree) :
    lastClosing first.closing rest = (rest.getLastD first).closing := by
  induction rest generalizing first with
  | nil => rfl
  | cons next rest ih => rw [lastClosing, ih, List.getLastD_cons]

/-- A node that shows a tab at its end: its space, or its name if no trivia is shown behind it. -/
def ShowsTab (tree : Tree) : Prop :=
  tree.trivia.newline = false ∧ filled tree.trivia.comment = none ∧
    (tree.trivia.whitespace = Item.indentText ∨
      tree.trivia.whitespace = "" ∧ tree.nameText? = some Item.indentText)

theorem own_last (tree : Tree) : tree.ownEnd.getLast? = tree.trivia.items.getLast?.or tree.ownMark? := by
  rw [ownEnd, List.getLast?_append]
  cases tree.ownMark? <;> rfl

theorem own_mark_no_indent (tree : Tree) : tree.ownMark? ≠ some Item.indent := by
  cases tree with
  | leaf kind text trivia => cases kind <;> simp [ownMark?, Leaf.style, Item.indent, Item.plain]
  | repeated repetition child trivia =>
      simp [ownMark?, Item.indent, Item.plain, mark_no_indent repetition]
  | choice first rest trivia => simp [ownMark?]
  | sequence first rest trivia =>
      rw [ownMark?]
      split
      · decide
      · simp

/-- Of what a node shows itself, only a name can be a tab. -/
theorem own_mark_tab_iff (tree : Tree) :
    (∃ style, style ≠ .plainText ∧ tree.ownMark? = some (.token ⟨Item.indentText, style⟩)) ↔
      tree.nameText? = some Item.indentText := by
  cases tree with
  | leaf kind text trivia =>
      cases kind with
      | terminal => simp [ownMark?, nameText?, Leaf.shownText, quoted_no_indent]
      | extendedTerminal | reference => simp [ownMark?, nameText?, Leaf.shownText, Leaf.style]
  | repeated repetition child trivia => simp [ownMark?, nameText?, Item.plain, mark_no_indent repetition]
  | choice first rest trivia => simp [ownMark?, nameText?]
  | sequence first rest trivia =>
      have other : " )" ≠ Item.indentText := by decide
      simp [ownMark?, nameText?, Item.plain, other]

theorem own_indent_iff (tree : Tree) : tree.ownEnd.getLast? = some Item.indent ↔ tree.trivia.newline = true := by
  rw [own_last, Trivia.items_last]
  cases tree.trivia.newline with
  | true => simp
  | false =>
      cases filled tree.trivia.comment with
      | some text => simp [Item.comment, Item.indent, Item.plain]
      | none =>
          by_cases empty : tree.trivia.whitespace = ""
          · simp [empty, own_mark_no_indent]
          · simp [empty, Item.comment, Item.indent, Item.plain]

theorem own_tab_iff (tree : Tree) : EndsInTab tree.ownEnd ↔ tree.ShowsTab := by
  rw [EndsInTab, ShowsTab, own_last, Trivia.items_last]
  cases tree.trivia.newline with
  | true =>
      simp only [↓reduceIte, Option.some_or, Bool.true_eq_false, false_and, iff_false]
      rintro ⟨style, other, same⟩
      cases same
      exact other rfl
  | false =>
      cases filled tree.trivia.comment with
      | some text => simp [Item.comment, remark_no_indent]
      | none =>
          by_cases empty : tree.trivia.whitespace = ""
          · have never : "" ≠ Item.indentText := by decide
            rw [← own_mark_tab_iff]
            simp [empty, never]
          · simp [empty, Item.comment]

theorem alternatives_end (first : Tree) (rest : List Tree) :
    (rest.getLastD first).items <:+ first.items ++ alternativeItems rest := by
  induction rest generalizing first with
  | nil => simp [alternativeItems]
  | cons next rest ih =>
      rw [List.getLastD_cons, alternativeItems, List.cons_append]
      exact (ih next).trans ((List.suffix_cons _ _).trans (List.suffix_append _ _))

/-- A sequence shows its last child last. -/
theorem elements_end (first : Tree) (rest : List Tree) (indented : Bool) :
    (rest.getLastD first).asElement (rest.getLastD first).items <:+
      first.asElement first.items ++ elementItems indented rest := by
  induction rest generalizing first indented with
  | nil => simp [elementItems]
  | cons next rest ih =>
      rw [List.getLastD_cons, elementItems, List.append_assoc]
      exact (ih next _).trans ((List.suffix_append _ _).trans (List.suffix_append _ _))

/-- A node shows something itself, and the tree ends in it. -/
structure Closes (node tree : Tree) : Prop where
  shows : node.ownEnd ≠ []
  ends : node.ownEnd <:+ tree.items

/-- Behind its children a sequence shows the parenthesis of a choice that ends it, and its trivia. -/
theorem sequence_end (first : Tree) (rest : List Tree) (trivia : Trivia) :
    ownEnd (.sequence first rest trivia) <:+ items (.sequence first rest trivia) := by
  have shown := elements_end first rest (endsInIndent (first.asElement first.items))
  have marked : (ownMark? (.sequence first rest trivia)).toList <:+
      first.asElement first.items ++ elementItems (endsInIndent (first.asElement first.items)) rest := by
    rw [ownMark?]
    split
    · rename_i choice
      rw [asElement, if_pos choice] at shown
      exact (List.suffix_append _ _).trans shown
    · exact List.nil_suffix
  obtain ⟨front, whole⟩ := marked
  exact ⟨front, by rw [items, ← whole, ownEnd, List.append_assoc]; rfl⟩

theorem closing_closes (tree : Tree) : Closes tree.closing tree := by
  induction tree with
  | leaf kind text trivia => exact ⟨List.cons_ne_nil _ _, List.suffix_refl _⟩
  | repeated repetition child trivia _ => exact ⟨List.cons_ne_nil _ _, List.suffix_append _ _⟩
  | choice first rest trivia ihFirst ihRest =>
      have each : ∀ tree ∈ first :: rest, Closes tree.closing tree :=
        List.forall_mem_cons.mpr ⟨ihFirst, ihRest⟩
      have last := each (rest.getLastD first) List.getLastD_mem_cons
      rw [closing, last_closing_exact]
      split
      · rename_i nothing
        have empty : trivia.items = [] := nothing
        refine ⟨last.shows, ?_⟩
        rw [items, empty, List.append_nil]
        exact last.ends.trans (alternatives_end first rest)
      · rename_i own
        exact ⟨own, List.suffix_append _ _⟩
  | sequence first rest trivia ihFirst ihRest =>
      have each : ∀ tree ∈ first :: rest, Closes tree.closing tree :=
        List.forall_mem_cons.mpr ⟨ihFirst, ihRest⟩
      have last := each (rest.getLastD first) List.getLastD_mem_cons
      rw [closing, last_closing_exact]
      split
      · rename_i nothing
        -- Nothing is shown behind the last child, so it is no choice in parentheses either.
        obtain ⟨unmarked, empty⟩ := List.append_eq_nil_iff.mp nothing
        have bare : (rest.getLastD first).isChoice = false := by simpa [ownMark?] using unmarked
        have shown := elements_end first rest (endsInIndent (first.asElement first.items))
        rw [asElement, bare, if_neg Bool.false_ne_true] at shown
        refine ⟨last.shows, ?_⟩
        rw [items, show trivia.items = [] from empty, List.append_nil]
        exact last.ends.trans shown
      · rename_i own
        exact ⟨own, sequence_end first rest trivia⟩

theorem items_last (tree : Tree) : tree.items.getLast? = tree.closing.ownEnd.getLast? := by
  obtain ⟨shows, front, whole⟩ := tree.closing_closes
  rw [← whole, List.getLast?_append_of_ne_nil front shows]

theorem ends_broken_iff (tree : Tree) : EndsBroken tree.items ↔ tree.closing.trivia.newline = true := by
  constructor
  · intro broken
    rw [← own_indent_iff, ← items_last, last_of_broken broken]
  · intro flagged
    have own : EndsBroken tree.closing.ownEnd := by
      rw [ownEnd, Trivia.items, flagged, if_pos rfl]
      exact (List.suffix_append _ _).trans (List.suffix_append _ _)
    exact own.trans tree.closing_closes.ends

theorem ends_in_tab_iff (tree : Tree) : EndsInTab tree.items ↔ tree.closing.ShowsTab := by
  rw [← own_tab_iff, EndsInTab, EndsInTab, items_last]

/-- What is taken for an indent is one, or else a tab of another style. -/
theorem ends_in_indent_iff (tree : Tree) :
    endsInIndent tree.items = true ↔ EndsBroken tree.items ∨ EndsInTab tree.items := by
  rw [endsInIndent]
  constructor
  · intro taken
    cases last : tree.items.getLast? with
    | none => simp [last] at taken
    | some item =>
        rw [last] at taken
        cases item with
        | lineBreak => cases taken
        | token token =>
            obtain ⟨text, style⟩ := token
            obtain rfl : text = Item.indentText := by simpa [Item.isIndent] using taken
            by_cases plain : style = .plainText
            · left
              rw [ends_broken_iff, ← own_indent_iff, ← items_last, last, plain]
              rfl
            · exact .inr ⟨style, plain, last⟩
  · rintro (broken | ⟨style, -, last⟩)
    · rw [last_of_broken broken]
      rfl
    · rw [last]
      rfl

end Tree

end GrammarPage
