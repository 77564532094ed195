import GrammarPage.Proofs.Canonical.Flat
import GrammarPage.Proofs.Canonical.Quotation

/-!
The canonical line of a tree determines its flat form, provided that names keep clear of the characters
that the line uses for itself. Each piece of a line can be cancelled against another piece as soon as
what follows the two cannot belong to either: a mark or a blank after a name, a blank after a part, a bar
or a closing parenthesis after a row, a closing parenthesis after all rows.
-/

namespace GrammarPage

/-- The characters that a canonical line uses for itself. -/
def reserved : List CodePoint :=
  [.char ' ', .char '\x27', .char '(', .char ')', .char '|', .char '+', .char '*', .char '?']

def PlainName (name : Text) : Prop := name.toList ≠ [] ∧ ∀ c ∈ name.toList, c ∉ reserved

-- The characters of the name are gone through, not all characters there are.
instance (name : Text) : Decidable (PlainName name) :=
  @instDecidableAnd _ _ inferInstance (List.decidableBAll _ _)

theorem mark_reserved (repetition : Repetition) : repetition.mark ∈ reserved := by
  cases repetition <;> decide

theorem mark_injective {left right : Repetition} (same : left.mark = right.mark) : left = right := by
  cases left <;> cases right <;> first | rfl | exact absurd same (by decide)

namespace Part

/-- What is left of a part without the repetitions around it. -/
def core : Part → Part
  | .repeated _ part => part.core
  | part => part

/-- The repetitions around the core, from the inside out. -/
def marks : Part → List Repetition
  | .repeated repetition part => part.marks ++ [repetition]
  | _ => []

theorem rebuilt : ∀ part : Part, part.marks.foldl (fun inner mark => .repeated mark inner) part.core = part
  | .repeated repetition part => by simp [marks, core, rebuilt part]
  | .literal _ | .name _ | .group _ => rfl

theorem core_bare : ∀ part : Part, part.core.marks = []
  | .repeated _ part => core_bare part
  | .literal _ | .name _ | .group _ => rfl

theorem chars_core : ∀ part : Part, part.chars = part.core.chars ++ part.marks.map Repetition.mark
  | .repeated repetition part => by simp [marks, core, chars, chars_core part]
  | .literal _ | .name _ | .group _ => by simp [marks, core]

/-- Plain names everywhere, and no group without rows or with an empty row. -/
inductive Plain : Part → Prop where
  | literal (text : Text) : Plain (.literal text)
  | name {text : Text} (clear : PlainName text) : Plain (.name text)
  | repeated {part : Part} (repetition : Repetition) (inner : Plain part) :
      Plain (.repeated repetition part)
  | group {rows : List (List Part)} (filled : RowsFilled rows)
      (inner : ∀ row ∈ rows, ∀ part ∈ row, Plain part) : Plain (.group rows)

theorem core_plain {part : Part} (plain : part.Plain) : part.core.Plain := by
  induction plain with
  | literal text => exact .literal text
  | name clear => exact .name clear
  | repeated _ _ ih => exact ih
  | group filled inner _ => exact .group filled inner

end Part

/-- Every part in the rows is plain. -/
def RowsPlain (rows : List (List Part)) : Prop := ∀ row ∈ rows, ∀ part ∈ row, part.Plain

/-! What may follow a name, a part, a row and all rows, each the more narrow. -/

def AfterName (text : List CodePoint) : Prop := ∀ c ∈ text.head?, c ∈ reserved

def AfterPart (text : List CodePoint) : Prop := text = [] ∨ ∃ more, text = .char ' ' :: more

def AfterRow (text : List CodePoint) : Prop :=
  text = [] ∨ ∃ c more, text = .char ' ' :: c :: more ∧ (c = '|' ∨ c = ')')

def AfterRows (text : List CodePoint) : Prop := text = [] ∨ ∃ more, text = .char ' ' :: .char ')' :: more

theorem after_name_of_part {text : List CodePoint} (after : AfterPart text) : AfterName text := by
  rcases after with rfl | ⟨more, rfl⟩
  · simp [AfterName]
  · simp [AfterName, reserved]

theorem after_part_of_row {text : List CodePoint} (after : AfterRow text) : AfterPart text := by
  rcases after with rfl | ⟨c, more, rfl, _⟩
  · exact .inl rfl
  · exact .inr ⟨c :: more, rfl⟩

theorem after_row_of_rows {text : List CodePoint} (after : AfterRows text) : AfterRow text := by
  rcases after with rfl | ⟨more, rfl⟩
  · exact .inl rfl
  · exact .inr ⟨')', more, rfl, .inr rfl⟩

theorem name_cancel {left right x y : List CodePoint} (clearLeft : ∀ c ∈ left, c ∉ reserved)
    (clearRight : ∀ c ∈ right, c ∉ reserved) (afterLeft : AfterName x) (afterRight : AfterName y)
    (same : left ++ x = right ++ y) : left = right ∧ x = y := by
  induction left generalizing right with
  | nil =>
      cases right with
      | nil => exact ⟨rfl, same⟩
      | cons d right =>
          have follows : x = d :: (right ++ y) := same
          exact absurd (afterLeft d (by simp [follows])) (clearRight d (by simp))
  | cons c left ih =>
      cases right with
      | nil =>
          have follows : y = c :: (left ++ x) := same.symm
          exact absurd (afterRight c (by simp [follows])) (clearLeft c (by simp))
      | cons d right =>
          obtain ⟨rfl, tail⟩ := List.cons.inj same
          obtain ⟨rfl, rest⟩ := ih (fun c member => clearLeft c (List.mem_cons_of_mem _ member))
            (fun c member => clearRight c (List.mem_cons_of_mem _ member)) tail
          exact ⟨rfl, rest⟩

theorem name_start {name : Text} (clear : PlainName name) {c : CodePoint} (special : c ∈ reserved)
    (x y : List CodePoint) : name.toList ++ x ≠ c :: y := by
  obtain ⟨d, more, chars⟩ := List.exists_cons_of_ne_nil clear.1
  have free := clear.2 d (by simp [chars])
  rintro same
  rw [chars] at same
  exact free ((List.cons.inj same).1 ▸ special)

/-- Marked pieces can be cancelled one by one if each piece can and what follows the last one does not
look like a marked piece. -/
theorem marked_cancel {piece : Type} {chars : piece → List CodePoint} (mark : List CodePoint)
    (After Close : List CodePoint → Prop) {left right : List piece} {x y : List CodePoint}
    (cancel : ∀ a ∈ left, ∀ b ∈ right, ∀ x y, After x → After y →
      chars a ++ x = chars b ++ y → a = b ∧ x = y)
    (marked : ∀ text, After (mark ++ text)) (closed : ∀ text, Close text → After text)
    (apart : ∀ a ∈ left ++ right, ∀ text, ¬ Close (mark ++ chars a ++ text))
    (closeLeft : Close x) (closeRight : Close y)
    (same : left.flatMap (mark ++ chars ·) ++ x = right.flatMap (mark ++ chars ·) ++ y) :
    left = right ∧ x = y := by
  induction left generalizing right with
  | nil =>
      cases right with
      | nil => exact ⟨rfl, by simpa using same⟩
      | cons b right =>
          rw [List.flatMap_nil, List.nil_append, List.flatMap_cons, List.append_assoc] at same
          exact absurd (same ▸ closeLeft) (apart b (by simp) _)
  | cons a left ih =>
      cases right with
      | nil =>
          rw [List.flatMap_nil, List.nil_append, List.flatMap_cons, List.append_assoc] at same
          exact absurd (same ▸ closeRight) (apart a (by simp) _)
      | cons b right =>
          have follows (more : List piece) {z : List CodePoint} (close : Close z) :
              After (more.flatMap (mark ++ chars ·) ++ z) := by
            cases more with
            | nil => exact closed z close
            | cons c more => simpa using marked _
          simp only [List.flatMap_cons, List.append_assoc, List.append_cancel_left_eq] at same
          obtain ⟨rfl, tail⟩ := cancel a (by simp) b (by simp) _ _ (follows left closeLeft)
            (follows right closeRight) same
          obtain ⟨rfl, rest⟩ := ih
            (fun c inLeft d inRight => cancel c (by simp [inLeft]) d (by simp [inRight]))
            (fun c member => apart c (by
              rcases List.mem_append.mp member with inLeft | inRight
              · simp [inLeft]
              · simp [inRight])) tail
          exact ⟨rfl, rest⟩

/-- A part begins with a quote, with an opening parenthesis or with a character of a name. -/
theorem part_start {part : Part} (plain : part.Plain) :
    ∃ c more, part.chars = c :: more ∧ c ≠ '|' ∧ c ≠ ')' := by
  induction plain with
  | literal text =>
      exact ⟨'\x27', text.toList.flatMap quoteEscape ++ [.char '\x27'], by
        simp [Part.chars, quotedTerminal], by decide, by decide⟩
  | @name text clear =>
      obtain ⟨c, more, chars⟩ := List.exists_cons_of_ne_nil clear.1
      have free := clear.2 c (by simp [chars])
      refine ⟨c, more, by rw [Part.chars, chars], ?_, ?_⟩
      · rintro rfl
        exact free (by decide)
      · rintro rfl
        exact free (by decide)
  | repeated repetition _ ih =>
      obtain ⟨c, more, chars, noBar, noClose⟩ := ih
      exact ⟨c, more ++ [repetition.mark], by simp [Part.chars, chars], noBar, noClose⟩
  | @group rows filled inner _ =>
      exact ⟨'(', .char ' ' :: rowsChars rows ++ [.char ' ', .char ')'], by
        simp [group_chars, parenthesized], by decide, by decide⟩

/-- In front of any other part, with anything fit to follow, the part and what follows it show. -/
def Cancels (part : Part) : Prop :=
  ∀ other x y, other.Plain → AfterPart x → AfterPart y →
    part.chars ++ x = other.chars ++ y → part = other ∧ x = y

theorem row_cancel {left right : List Part} {x y : List CodePoint}
    (cancels : ∀ part ∈ left, Cancels part) (plainLeft : ∀ part ∈ left, part.Plain)
    (plainRight : ∀ part ∈ right, part.Plain) (someLeft : left ≠ []) (someRight : right ≠ [])
    (afterLeft : AfterRow x) (afterRight : AfterRow y)
    (same : rowChars left ++ x = rowChars right ++ y) : left = right ∧ x = y := by
  apply marked_cancel [.char ' '] AfterPart AfterRow
    (fun part inLeft other inRight x y => cancels part inLeft other x y (plainRight other inRight))
    (fun text => .inr ⟨text, rfl⟩) (fun _ => after_part_of_row) ?_ afterLeft afterRight
  · rw [← row_chars_marked someLeft, ← row_chars_marked someRight, List.append_assoc,
      List.append_assoc, same]
  · intro part member text after
    have plain : part.Plain := (List.mem_append.mp member).elim (plainLeft part) (plainRight part)
    obtain ⟨c, more, chars, noBar, noClose⟩ := part_start plain
    rw [chars] at after
    rcases after with none | ⟨d, rest, starts, bar | close⟩
    · simp at none
    · exact noBar (by simp_all)
    · exact noClose (by simp_all)

theorem rows_cancel {left right : List (List Part)} {x y : List CodePoint}
    (cancels : ∀ row ∈ left, ∀ part ∈ row, Cancels part) (plainLeft : RowsPlain left)
    (plainRight : RowsPlain right) (filledLeft : RowsFilled left) (filledRight : RowsFilled right)
    (afterLeft : AfterRows x) (afterRight : AfterRows y)
    (same : rowsChars left ++ x = rowsChars right ++ y) : left = right ∧ x = y := by
  apply marked_cancel [.char ' ', .char '|', .char ' '] AfterRow AfterRows
    (fun row inLeft other inRight x y => row_cancel (cancels row inLeft) (plainLeft row inLeft)
      (plainRight other inRight) (filledLeft.2 row inLeft) (filledRight.2 other inRight))
    (fun text => .inr ⟨'|', .char ' ' :: text, rfl, .inl rfl⟩) (fun _ => after_row_of_rows) ?_
    afterLeft afterRight
  · rw [← rows_chars_marked filledLeft.1, ← rows_chars_marked filledRight.1, List.append_assoc,
      List.append_assoc, same]
  · intro row _ text after
    rcases after with none | ⟨more, starts⟩
    · simp at none
    · simp at starts

/-- Against a bare part the core shows, and the marks are left in front of what follows. -/
def CoreCancels (part : Part) : Prop :=
  ∀ other x y, other.Plain → other.marks = [] → AfterName x → AfterName y →
    part.chars ++ x = other.chars ++ y →
    part.core = other ∧ part.marks.map Repetition.mark ++ x = y

theorem marks_cancel {left right : List Repetition} {x y : List CodePoint} (afterLeft : AfterPart x)
    (afterRight : AfterPart y)
    (same : left.map Repetition.mark ++ x = right.map Repetition.mark ++ y) :
    left = right ∧ x = y := by
  have apart (repetition : Repetition) (text : List CodePoint) : ¬ AfterPart (repetition.mark :: text) := by
    rintro (none | ⟨more, starts⟩)
    · simp at none
    · cases repetition <;> simp [Repetition.mark] at starts
  induction left generalizing right with
  | nil =>
      cases right with
      | nil => exact ⟨rfl, same⟩
      | cons b right =>
          have follows : x = b.mark :: (right.map Repetition.mark ++ y) := same
          exact absurd (follows ▸ afterLeft) (apart b _)
  | cons a left ih =>
      cases right with
      | nil =>
          have follows : y = a.mark :: (left.map Repetition.mark ++ x) := same.symm
          exact absurd (follows ▸ afterRight) (apart a _)
      | cons b right =>
          obtain ⟨mark, tail⟩ := List.cons.inj same
          obtain ⟨rfl, rest⟩ := ih tail
          exact ⟨by rw [mark_injective mark], rest⟩

theorem cancels_of_core {part : Part} (coreCancels : CoreCancels part) : Cancels part := by
  intro other x y plain afterLeft afterRight same
  have afterMarks : AfterName (other.marks.map Repetition.mark ++ y) := by
    cases other.marks with
    | nil => exact after_name_of_part afterRight
    | cons repetition more => simp [AfterName, mark_reserved]
  rw [Part.chars_core other, List.append_assoc] at same
  obtain ⟨core, marked⟩ := coreCancels other.core x _ (Part.core_plain plain) (Part.core_bare other)
    (after_name_of_part afterLeft) afterMarks same
  obtain ⟨marks, rest⟩ := marks_cancel afterLeft afterRight marked
  refine ⟨?_, rest⟩
  calc part = part.marks.foldl (fun inner mark => .repeated mark inner) part.core := part.rebuilt.symm
    _ = other.marks.foldl (fun inner mark => .repeated mark inner) other.core := by rw [core, marks]
    _ = other := other.rebuilt

-- The first character tells a literal, a name and a group apart; a repetition has none of its own.
theorem core_cancels {part : Part} (plain : part.Plain) : CoreCancels part := by
  induction plain with
  | literal text =>
      intro other x y plainOther bare _ _ same
      cases plainOther with
      | literal text' =>
          rw [Part.chars, Part.chars] at same
          obtain ⟨texts, rest⟩ := quoted_terminal_cancel same
          obtain rfl := Text.to_list_inj.mp texts
          exact ⟨rfl, rest⟩
      | name clear =>
          rw [Part.chars, Part.chars] at same
          exact absurd same.symm (name_start clear (by decide) y _)
      | repeated repetition _ => simp [Part.marks] at bare
      | group _ _ => simp [group_chars, Part.chars, quotedTerminal, parenthesized] at same
  | @name text clear =>
      intro other x y plainOther bare afterLeft afterRight same
      cases plainOther with
      | literal text' =>
          rw [Part.chars, Part.chars] at same
          exact absurd same (name_start clear (by decide) x _)
      | @name text' clear' =>
          rw [Part.chars, Part.chars] at same
          obtain ⟨texts, rest⟩ := name_cancel clear.2 clear'.2 afterLeft afterRight same
          obtain rfl := Text.to_list_inj.mp texts
          exact ⟨rfl, rest⟩
      | repeated repetition _ => simp [Part.marks] at bare
      | group _ _ =>
          rw [group_chars, Part.chars] at same
          exact absurd same (name_start clear (by decide) x _)
  | @repeated part repetition _ ih =>
      intro other x y plainOther bare _ afterRight same
      have inner := ih other (repetition.mark :: x) y plainOther bare
        (by simp [AfterName, mark_reserved]) afterRight (by simpa [Part.chars] using same)
      simpa [Part.core, Part.marks] using inner
  | @group rows filled inner ih =>
      intro other x y plainOther bare _ _ same
      cases plainOther with
      | literal text' => simp [group_chars, Part.chars, quotedTerminal, parenthesized] at same
      | name clear =>
          rw [group_chars, Part.chars] at same
          exact absurd same.symm (name_start clear (by decide) y _)
      | repeated repetition _ => simp [Part.marks] at bare
      | @group rows' filled' inner' =>
          simp only [group_chars, parenthesized, List.cons_append, List.append_assoc,
            List.cons.injEq, true_and] at same
          obtain ⟨rfl, rest⟩ := rows_cancel
            (fun row inRows part inRow => cancels_of_core (ih row inRows part inRow)) inner inner'
            filled filled' (.inr ⟨x, rfl⟩) (.inr ⟨y, rfl⟩) same
          exact ⟨rfl, by simpa [Part.marks] using rest⟩

/-- No two plain flat forms have the same line. -/
theorem rows_chars_injective {left right : List (List Part)} (plainLeft : RowsPlain left)
    (plainRight : RowsPlain right) (filledLeft : RowsFilled left) (filledRight : RowsFilled right)
    (same : rowsChars left = rowsChars right) : left = right := by
  have cancels : ∀ row ∈ left, ∀ part ∈ row, Cancels part :=
    fun row inRows part inRow => cancels_of_core (core_cancels (plainLeft row inRows part inRow))
  exact (rows_cancel cancels plainLeft plainRight filledLeft filledRight (.inl rfl) (.inl rfl)
    (congrArg (· ++ []) same)).1

namespace Tree

/-- Every name in the tree keeps clear of the characters that a canonical line uses for itself. -/
def NamesPlain (tree : Tree) : Prop := ∀ name ∈ tree.nameTexts, PlainName name

instance (tree : Tree) : Decidable tree.NamesPlain := List.decidableBAll _ _

theorem child_names_plain {tree child : Tree} (plain : tree.NamesPlain)
    (member : child ∈ tree.children) : child.NamesPlain :=
  fun name named => plain name (names_child member named)

theorem leaf_plain {kind : Leaf} {text : Text} {trivia : Trivia}
    (plain : (Tree.leaf kind text trivia).NamesPlain) : (kind.part text).Plain := by
  cases kind with
  | terminal => exact .literal text
  | extendedTerminal | reference => exact .name (plain text (by simp [nameTexts, walk, nameText?]))

theorem element_plain {tree : Tree} (plain : RowsPlain tree.flat) :
    ∀ part ∈ tree.flatElement tree.flat, part.Plain := by
  intro part member
  cases choice : tree.isChoice with
  | true =>
      obtain rfl : part = .group tree.flat := by simpa [flatElement, choice] using member
      exact .group tree.flat_filled plain
  | false =>
      simp only [flatElement, choice, Bool.false_eq_true, ↓reduceIte, List.mem_flatten] at member
      obtain ⟨row, inRows, inRow⟩ := member
      exact plain row inRows part inRow

theorem operand_plain {tree : Tree} (plain : RowsPlain tree.flat) :
    (tree.flatOperand tree.flat).Plain := by
  cases group : tree.isGroup with
  | true => exact flat_operand_group group _ ▸ .group tree.flat_filled plain
  | false =>
      have sole := flat_sole group
      generalize tree.flatOperand tree.flat = part at sole ⊢
      exact plain [part] (by simp [sole]) part (by simp)

theorem flat_plain {tree : Tree} (plain : tree.NamesPlain) : RowsPlain tree.flat := by
  induction tree with
  | leaf kind text trivia => simpa [flat, RowsPlain] using leaf_plain plain
  | repeated repetition child trivia ih =>
      have inner := operand_plain (ih (child_names_plain plain (by simp [children])))
      simpa [flat, RowsPlain] using inner.repeated repetition
  | choice first rest trivia ihFirst ihRest =>
      intro row member
      simp only [flat, flat_alternatives_exact, List.mem_append, List.mem_flatMap] at member
      rcases member with here | ⟨tree, later, here⟩
      · exact ihFirst (child_names_plain plain (by simp [children])) row here
      · exact ihRest tree later (child_names_plain plain (by simp [children, later])) row here
  | sequence first rest trivia ihFirst ihRest =>
      simp only [flat, flat_elements_exact, RowsPlain, List.mem_singleton, forall_eq,
        List.mem_append, List.mem_flatMap]
      rintro part (here | ⟨tree, later, here⟩)
      · exact element_plain (ihFirst (child_names_plain plain (by simp [children]))) part here
      · exact element_plain (ihRest tree later (child_names_plain plain
          (by simp [children, later]))) part here

/-- Two trees have the same canonical line exactly if they have the same flat form. -/
theorem canonical_unambiguous (left right : Tree) (plainLeft : left.NamesPlain)
    (plainRight : right.NamesPlain) : left.canonical = right.canonical ↔ left.flat = right.flat := by
  constructor
  · intro same
    have lines : rowsChars left.flat = rowsChars right.flat := by
      rw [← canonical_chars_flat, ← canonical_chars_flat]
      exact Text.of_list_injective same
    exact rows_chars_injective (flat_plain plainLeft) (flat_plain plainRight) left.flat_filled
      right.flat_filled lines
  · intro same
    rw [canonical, canonical, canonical_chars_flat, canonical_chars_flat, same]

theorem canonical_unambiguous_nested :
    let left := Tree.sequence (.leaf .reference "a" .bare)
      [.sequence (.leaf .terminal "' | (" .bare) [] .bare,
        .choice (.leaf .extendedTerminal "b" .bare) [.leaf .reference "c" .bare] .bare] .bare
    let right := Tree.sequence (.leaf .extendedTerminal "a" .bare)
      [.leaf .terminal "' | (" .bare,
        .choice (.leaf .reference "b" .bare)
          [.choice (.leaf .reference "c" .bare) [] .bare] .bare] .bare
    left.NamesPlain ∧ right.NamesPlain ∧
      (left.canonical = right.canonical ↔ left.flat = right.flat) :=
  ⟨by decide, by decide, canonical_unambiguous _ _ (by decide) (by decide)⟩

end Tree

end GrammarPage
