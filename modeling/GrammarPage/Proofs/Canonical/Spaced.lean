import GrammarPage.Proofs.Canonical.Shown

/-!
Trees laid out with single spaces. A space behind every child that another follows shows the tree with the
spacing of its canonical line, as long as no choice stands before another element of a sequence. The space
of such a choice is shown with the choice, inside the parentheses that the sequence puts around it.
-/

namespace GrammarPage

def Trivia.space : Trivia := ⟨" ", none, false⟩

/-- Behind a child stands a space if others follow. -/
def Trivia.gap (following : List Tree) : Trivia := if following.isEmpty then .bare else .space

def gap (following : List Tree) : List CodePoint := if following.isEmpty then [] else [.char ' ']

namespace Tree

mutual
/-- The tree with single spaces for all its layout, but for the trivia of its own. -/
def spacedWithin (trivia : Trivia) : Tree → Tree
  | .leaf kind text _ => .leaf kind text trivia
  | .repeated repetition child _ => .repeated repetition (spacedWithin .bare child) trivia
  | .choice first rest _ => .choice (spacedWithin (.gap rest) first) (spacedAll rest) trivia
  | .sequence first rest _ => .sequence (spacedWithin (.gap rest) first) (spacedAll rest) trivia

def spacedAll : List Tree → List Tree
  | [] => []
  | tree :: rest => spacedWithin (.gap rest) tree :: spacedAll rest
end

def spaced (tree : Tree) : Tree := tree.spacedWithin .bare

/-- An element of a sequence with the space before the next. The parentheses of a choice hold it too. -/
def gapped (tree : Tree) (line : List CodePoint) (following : List Tree) : List CodePoint :=
  if tree.isChoice then parenthesized (line ++ gap following) else line ++ gap following

mutual
/-- The canonical line with the space behind a choice in a sequence moved into its parentheses. -/
def innerLine : Tree → List CodePoint
  | .leaf kind text _ => kind.canonical text.toList
  | .repeated repetition child _ =>
      (if child.isGroup then parenthesized (innerLine child) else innerLine child) ++ [repetition.mark]
  | .choice first rest _ => innerLine first ++ innerAlternatives rest
  | .sequence first rest _ => first.gapped (innerLine first) rest ++ innerElements rest

def innerAlternatives : List Tree → List CodePoint
  | [] => []
  | tree :: rest => .char ' ' :: .char '|' :: .char ' ' :: innerLine tree ++ innerAlternatives rest

def innerElements : List Tree → List CodePoint
  | [] => []
  | tree :: rest => tree.gapped (innerLine tree) rest ++ innerElements rest
end

end Tree

/-- What a stream writes, line breaks apart. -/
def streamChars (items : List Item) : List CodePoint := writtenBy (tokensOf items)

theorem stream_chars_append (left right : List Item) :
    streamChars (left ++ right) = streamChars left ++ streamChars right := by
  rw [streamChars, tokens_of_append, writtenBy, List.flatMap_append]
  rfl

theorem stream_chars_token (token : Token) (items : List Item) :
    streamChars (.token token :: items) = token.text.toList ++ streamChars items := rfl

theorem stream_chars_grouped (grouped : Bool) (items : List Item) :
    streamChars (if grouped then Item.parenthesized items else items) =
      if grouped then parenthesized (streamChars items) else streamChars items := by
  cases grouped with
  | false => rfl
  | true =>
      have closes : streamChars [Item.plain " )"] = [.char ' ', .char ')'] := by decide
      rw [if_pos rfl, if_pos rfl, Item.parenthesized, List.cons_append, Item.plain, stream_chars_token,
        stream_chars_append, closes]
      rfl

theorem stream_chars_gap (following : List Tree) : streamChars (Trivia.gap following).items = gap following := by
  cases following with
  | nil => rfl
  | cons first rest => exact (by decide : streamChars Trivia.space.items = [.char ' '])

namespace Tree

theorem spaced_is_choice (trivia : Trivia) (tree : Tree) :
    (tree.spacedWithin trivia).isChoice = tree.isChoice := by
  cases tree <;> rfl

theorem spaced_is_group (trivia : Trivia) (tree : Tree) :
    (tree.spacedWithin trivia).isGroup = tree.isGroup := by
  cases tree <;> rfl

/-- The trivia of a tree is shown behind everything else. -/
theorem spaced_items (trivia : Trivia) (tree : Tree) :
    (tree.spacedWithin trivia).items = tree.spaced.items ++ trivia.items := by
  have bare : Trivia.bare.items = [] := rfl
  cases tree <;> simp [spaced, spacedWithin, items, bare]

/-- An element of a sequence as it is shown with single spaces. -/
def shownElement (tree : Tree) (following : List Tree) : List Item :=
  (tree.spacedWithin (.gap following)).asElement (tree.spacedWithin (.gap following)).items

theorem ends_in_no_indent (front : List Item) {item : Item} (other : item.isIndent = false) :
    endsInIndent (front ++ [item]) = false := by
  simp [endsInIndent, other]

/-- An element before another ends in its space or in a parenthesis, and so in no indent. -/
theorem shown_before_another (tree : Tree) {following : List Tree} (some : following ≠ []) :
    endsInIndent (tree.shownElement following) = false := by
  obtain ⟨next, more, rfl⟩ := List.exists_cons_of_ne_nil some
  have space : (Trivia.gap (next :: more)).items = [Item.comment " "] := rfl
  rw [shownElement, asElement, spaced_items, space]
  split
  · exact ends_in_no_indent (Item.plain "( " :: _) (by decide)
  · exact ends_in_no_indent _ (by decide)

theorem element_written {tree : Tree} (written : streamChars tree.spaced.items = tree.innerLine)
    (following : List Tree) :
    streamChars (tree.shownElement following) = tree.gapped tree.innerLine following := by
  rw [shownElement, asElement, stream_chars_grouped, spaced_items, stream_chars_append, written,
    stream_chars_gap, spaced_is_choice, gapped]

section Written
variable {trees : List Tree} (written : ∀ tree ∈ trees, streamChars tree.spaced.items = tree.innerLine)
include written

-- The bar of an alternative follows the space of the tree in front of it, so that space is taken along.
theorem alternatives_written :
    gap trees ++ streamChars (alternativeItems (spacedAll trees)) = innerAlternatives trees := by
  induction trees with
  | nil => rfl
  | cons tree rest ih =>
      have later := ih fun other member => written other (List.mem_cons_of_mem _ member)
      rw [spacedAll, alternativeItems, List.cons_append, Item.plain, stream_chars_token, stream_chars_append,
        spaced_items, stream_chars_append, written tree List.mem_cons_self, stream_chars_gap,
        List.append_assoc, later]
      rfl

theorem elements_written (indented : Bool) (apart : trees ≠ [] → indented = false) :
    streamChars (elementItems indented (spacedAll trees)) = innerElements trees := by
  induction trees generalizing indented with
  | nil => rfl
  | cons tree rest ih =>
      have none : indented = false := apart (by simp)
      have here := element_written (written tree List.mem_cons_self) rest
      have later := ih (fun other member => written other (List.mem_cons_of_mem _ member))
        (endsInIndent (tree.shownElement rest)) tree.shown_before_another
      calc streamChars (elementItems indented (spacedAll (tree :: rest)))
          = streamChars (tree.shownElement rest ++
              elementItems (endsInIndent (tree.shownElement rest)) (spacedAll rest)) := by
            rw [none]
            rfl
        _ = innerElements (tree :: rest) := by
            rw [stream_chars_append, here, later, innerElements]

end Written

theorem spaced_written (tree : Tree) : streamChars tree.spaced.items = tree.innerLine := by
  have bare : Trivia.bare.items = [] := rfl
  induction tree with
  | leaf kind text trivia =>
      rw [spaced, spacedWithin, items, stream_chars_token, shown_text_chars, bare]
      exact List.append_nil _
  | repeated repetition child trivia ih =>
      have mark : (Text.singleton repetition.mark).toList = [repetition.mark] := Text.to_list_singleton
      rw [spaced, spacedWithin, items, stream_chars_append, asOperand, stream_chars_grouped, ← spaced, ih,
        Item.plain, stream_chars_token, bare, mark, innerLine, spaced, spaced_is_group]
      rfl
  | choice first rest trivia ihFirst ihRest =>
      rw [spaced, spacedWithin, items, spaced_items, bare, List.append_nil, stream_chars_append,
        stream_chars_append, ihFirst, stream_chars_gap, List.append_assoc, alternatives_written ihRest,
        innerLine]
  | sequence first rest trivia ihFirst ihRest =>
      have here := element_written ihFirst rest
      have later := elements_written ihRest (endsInIndent (first.shownElement rest))
        first.shown_before_another
      calc streamChars (Tree.sequence first rest trivia).spaced.items
          = streamChars (first.shownElement rest ++
              elementItems (endsInIndent (first.shownElement rest)) (spacedAll rest) ++ []) := rfl
        _ = (Tree.sequence first rest trivia).innerLine := by
            rw [List.append_nil, stream_chars_append, here, later, innerLine]

/-- The elements of a sequence; any other tree has none. -/
def elements : Tree → List Tree
  | .sequence first rest _ => first :: rest
  | _ => []

/-- No choice stands before another element of the sequence. -/
def ChoiceLast (node : Tree) : Prop := ∀ element ∈ node.elements.dropLast, element.isChoice = false

/-- An element of a sequence on the canonical line. -/
def canonicalElement (tree : Tree) : List CodePoint :=
  if tree.isChoice then parenthesized tree.canonicalChars else tree.canonicalChars

theorem parenthesized_iff {left right : List CodePoint} :
    parenthesized left = parenthesized right ↔ left = right := by
  simp [parenthesized]

theorem parenthesized_length (line : List CodePoint) : (parenthesized line).length = line.length + 4 := by
  simp [parenthesized]

-- Behind lines of one length, a space within the parentheses meets the parenthesis that closes the other.
theorem parenthesized_space_apart {left right : List CodePoint} (lengths : left.length = right.length)
    (behind other : List CodePoint) :
    parenthesized (left ++ [.char ' ']) ++ behind ≠ parenthesized right ++ .char ' ' :: other := by
  intro same
  simp only [parenthesized, List.cons_append, List.append_assoc, List.cons.injEq, true_and] at same
  have tails := (List.append_inj same lengths).2
  exact absurd (List.cons.inj (List.cons.inj tails).2).1 (by decide)

section Lengths

theorem gapped_length {tree : Tree} (same : tree.innerLine.length = tree.canonicalChars.length)
    (following : List Tree) :
    (tree.gapped tree.innerLine following).length =
      tree.canonicalElement.length + (gap following).length := by
  rw [gapped, canonicalElement]
  split
  · rw [parenthesized_length, parenthesized_length, List.length_append, same]
    omega
  · rw [List.length_append, same]

variable {trees : List Tree}
  (same : ∀ tree ∈ trees, tree.innerLine.length = tree.canonicalChars.length)
include same

theorem alternatives_length : (innerAlternatives trees).length = (canonicalAlternatives trees).length := by
  induction trees with
  | nil => rfl
  | cons tree rest ih =>
      have later := ih fun other member => same other (List.mem_cons_of_mem _ member)
      simp only [innerAlternatives, canonicalAlternatives, List.cons_append, List.length_cons,
        List.length_append, later, same tree List.mem_cons_self]

theorem elements_length :
    (gap trees).length + (innerElements trees).length = (canonicalElements trees).length := by
  induction trees with
  | nil => rfl
  | cons tree rest ih =>
      have here := gapped_length (same tree List.mem_cons_self) rest
      have later := ih fun other member => same other (List.mem_cons_of_mem _ member)
      have line : canonicalElements (tree :: rest) = .char ' ' :: tree.canonicalElement ++ canonicalElements rest :=
        rfl
      have space : (gap (tree :: rest)).length = 1 := rfl
      rw [innerElements, line, List.length_append, here, space, List.cons_append, List.length_cons,
        List.length_append, ← later]
      omega

end Lengths

/-- A space is moved, but none is lost and none is added. -/
theorem inner_line_length (tree : Tree) : tree.innerLine.length = tree.canonicalChars.length := by
  induction tree with
  | leaf kind text trivia => rfl
  | repeated repetition child trivia ih =>
      rw [innerLine, canonicalChars, List.length_append, List.length_append]
      split
      · rw [parenthesized_length, parenthesized_length, ih]
      · rw [ih]
  | choice first rest trivia ihFirst ihRest =>
      rw [innerLine, canonicalChars, List.length_append, List.length_append, ihFirst,
        alternatives_length ihRest]
  | sequence first rest trivia ihFirst ihRest =>
      have line : (Tree.sequence first rest trivia).canonicalChars =
          first.canonicalElement ++ canonicalElements rest := rfl
      rw [innerLine, line, List.length_append, List.length_append, gapped_length ihFirst,
        Nat.add_assoc, elements_length ihRest]

theorem alternatives_iff {trees : List Tree} :
    innerAlternatives trees = canonicalAlternatives trees ↔
      ∀ tree ∈ trees, tree.innerLine = tree.canonicalChars := by
  induction trees with
  | nil => simp [innerAlternatives, canonicalAlternatives]
  | cons tree rest ih =>
      have lengths := tree.inner_line_length
      simp only [innerAlternatives, canonicalAlternatives, List.cons_append, List.cons.injEq, true_and,
        List.append_eq_append_iff_of_size_eq_left lengths, ih, List.forall_mem_cons]

/-- A sequence is shown as on its canonical line if its elements are and no choice is before another. -/
theorem elements_iff {first : Tree} {rest : List Tree} :
    innerElements (first :: rest) = first.canonicalElement ++ canonicalElements rest ↔
      (∀ tree ∈ first :: rest, tree.innerLine = tree.canonicalChars) ∧
        ∀ tree ∈ (first :: rest).dropLast, tree.isChoice = false := by
  induction rest generalizing first with
  | nil =>
      have none : gap [] = [] := rfl
      simp only [innerElements, gapped, canonicalElement, canonicalElements, none, List.append_nil]
      split <;> simp [parenthesized_iff]
  | cons next more ih =>
      have lengths := first.inner_line_length
      have line : canonicalElements (next :: more) = .char ' ' :: (next.canonicalElement ++ canonicalElements more) :=
        rfl
      have space : gap (next :: more) = [.char ' '] := rfl
      rw [innerElements, gapped, canonicalElement, line, space]
      cases choice : first.isChoice with
      | true =>
          refine iff_of_false (parenthesized_space_apart lengths _ _) fun both => ?_
          simp [both.2 first (by simp)] at choice
      | false =>
          rw [if_neg (by simp), if_neg (by simp), List.append_assoc,
            List.append_eq_append_iff_of_size_eq_left lengths, List.singleton_append, List.cons.injEq, ih,
            List.dropLast_cons_cons, List.forall_mem_cons, List.forall_mem_cons]
          simp [choice, and_assoc]

/-- What is below a node that is no sequence decides. -/
theorem choice_last_below {tree : Tree} (none : tree.elements = []) :
    (∀ node ∈ tree.walk, node.ChoiceLast) ↔
      ∀ child ∈ tree.children, ∀ node ∈ child.walk, node.ChoiceLast := by
  rw [walk_all_iff, ChoiceLast, none]
  simp

theorem inner_line_iff (tree : Tree) :
    tree.innerLine = tree.canonicalChars ↔ ∀ node ∈ tree.walk, node.ChoiceLast := by
  induction tree with
  | leaf kind text trivia =>
      rw [choice_last_below rfl, innerLine, canonicalChars]
      simp [children]
  | repeated repetition child trivia ih =>
      rw [choice_last_below rfl, innerLine, canonicalChars, List.append_left_inj]
      split
      · rw [parenthesized_iff, ih]
        simp [children]
      · rw [ih]
        simp [children]
  | choice first rest trivia ihFirst ihRest =>
      rw [choice_last_below rfl, innerLine, canonicalChars,
        List.append_eq_append_iff_of_size_eq_left first.inner_line_length, alternatives_iff, children,
        List.forall_mem_cons, ihFirst]
      exact and_congr_right fun _ => forall₂_congr ihRest
  | sequence first rest trivia ihFirst ihRest =>
      have shown : (Tree.sequence first rest trivia).innerLine = innerElements (first :: rest) := rfl
      have line : (Tree.sequence first rest trivia).canonicalChars =
          first.canonicalElement ++ canonicalElements rest := rfl
      rw [shown, line, elements_iff, walk_all_iff, and_comm, children, List.forall_mem_cons,
        List.forall_mem_cons, ihFirst]
      exact and_congr_right fun _ => and_congr_right fun _ => forall₂_congr ihRest

end Tree

/-- A tree laid out with single spaces is shown as its canonical line with the space behind a choice moved
into its parentheses; that is the canonical line exactly if in no sequence a choice stands before another
element. -/
theorem single_spaces_exact (tree : Tree) :
    streamChars tree.spaced.items = tree.innerLine ∧
      (streamChars tree.spaced.items = tree.canonical.toList ↔ ∀ node ∈ tree.walk, node.ChoiceLast) := by
  rw [tree.spaced_written, Tree.canonical, Text.to_list_of_list]
  exact ⟨rfl, tree.inner_line_iff⟩

theorem space_shown_within_choice :
    let name (text : Text) : Tree := .leaf .reference text .bare
    let tree : Tree := .sequence (.choice (name "a") [name "b"] .bare) [name "c"] .bare
    streamChars tree.spaced.items ≠ tree.canonical.toList := by
  decide

end GrammarPage
