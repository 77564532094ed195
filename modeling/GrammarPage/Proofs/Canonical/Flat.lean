import Mathlib.Data.List.Basic
import GrammarPage.Proofs.Tree.Induction

/-!
The flat form of a tree: alternatives, each a row of parts. What a canonical line cannot show is gone
from it: trivia, a sequence within a sequence, a choice within a choice, and which kind of name a name
is. The canonical line of a tree is the line of its flat form.
-/

namespace GrammarPage

inductive Part where
  | literal (text : Text)
  | name (text : Text)
  | repeated (repetition : Repetition) (part : Part)
  | group (rows : List (List Part))

def Leaf.part (text : Text) : Leaf → Part
  | .terminal => .literal text
  | .extendedTerminal | .reference => .name text

namespace Tree

/-- What a child gives to a sequence: a choice one group, any other tree the parts of its one row. -/
def flatElement (tree : Tree) (rows : List (List Part)) : List Part :=
  if tree.isChoice then [.group rows] else rows.flatten

/-- What a repetition applies to: a choice or a sequence as a group, any other tree as its one part. -/
def flatOperand (tree : Tree) : List (List Part) → Part
  | [[part]] => if tree.isGroup then .group [[part]] else part
  | rows => .group rows

mutual
def flat : Tree → List (List Part)
  | .leaf kind text _ => [[kind.part text]]
  | .repeated repetition child _ => [[.repeated repetition (child.flatOperand (flat child))]]
  | .choice first rest _ => flat first ++ flatAlternatives rest
  | .sequence first rest _ => [first.flatElement (flat first) ++ flatElements rest]

def flatAlternatives : List Tree → List (List Part)
  | [] => []
  | tree :: rest => flat tree ++ flatAlternatives rest

def flatElements : List Tree → List Part
  | [] => []
  | tree :: rest => tree.flatElement (flat tree) ++ flatElements rest
end

theorem flat_alternatives_exact (trees : List Tree) :
    flatAlternatives trees = trees.flatMap flat := by
  induction trees with
  | nil => rfl
  | cons tree rest ih => simp [flatAlternatives, ih]

theorem flat_elements_exact (trees : List Tree) :
    flatElements trees = trees.flatMap fun tree => tree.flatElement tree.flat := by
  induction trees with
  | nil => rfl
  | cons tree rest ih => simp [flatElements, ih]

/-- Only a choice has several alternatives. -/
theorem flat_single {tree : Tree} (single : tree.isChoice = false) : tree.flat = [tree.flat.flatten] := by
  cases tree with
  | leaf kind text trivia => rfl
  | repeated repetition child trivia => rfl
  | choice first rest trivia => simp [isChoice] at single
  | sequence first rest trivia => simp [flat]

/-- A leaf or a repetition has one part. -/
theorem flat_sole {tree : Tree} (sole : tree.isGroup = false) :
    tree.flat = [[tree.flatOperand tree.flat]] := by
  cases tree with
  | leaf kind text trivia => rfl
  | repeated repetition child trivia => rfl
  | choice first rest trivia => simp [isGroup] at sole
  | sequence first rest trivia => simp [isGroup] at sole

theorem flat_operand_group {tree : Tree} (group : tree.isGroup = true) (rows : List (List Part)) :
    tree.flatOperand rows = .group rows := by
  unfold flatOperand
  split
  · simp [group]
  · rfl

end Tree

/-- The texts one after the other, with a mark between neighbours. -/
def separated (mark : List CodePoint) : List (List CodePoint) → List CodePoint
  | [] => []
  | first :: rest => first ++ rest.flatMap (mark ++ ·)

theorem separated_append (mark : List CodePoint) {left : List (List CodePoint)} (right : List (List CodePoint))
    (some : left ≠ []) :
    separated mark (left ++ right) = separated mark left ++ right.flatMap (mark ++ ·) := by
  cases left with
  | nil => exact absurd rfl some
  | cons first rest => simp [separated]

theorem separated_marked (mark : List CodePoint) {texts : List (List CodePoint)} (some : texts ≠ []) :
    mark ++ separated mark texts = texts.flatMap (mark ++ ·) := by
  cases texts with
  | nil => exact absurd rfl some
  | cons first rest => simp [separated]

def Part.chars : Part → List CodePoint
  | .literal text => quotedTerminal text.toList
  | .name text => text.toList
  | .repeated repetition part => part.chars ++ [repetition.mark]
  | .group rows => parenthesized
      (separated [.char ' ', .char '|', .char ' '] (rows.map fun row => separated [.char ' '] (row.map chars)))
termination_by part => part
decreasing_by
  · decreasing_tactic
  · rename_i inRows _ inRow
    have outer := List.sizeOf_lt_of_mem inRows
    have inner := List.sizeOf_lt_of_mem inRow
    simp only [Part.group.sizeOf_spec]
    omega

def rowChars (row : List Part) : List CodePoint := separated [.char ' '] (row.map Part.chars)

def rowsChars (rows : List (List Part)) : List CodePoint :=
  separated [.char ' ', .char '|', .char ' '] (rows.map rowChars)

theorem group_chars (rows : List (List Part)) :
    (Part.group rows).chars = parenthesized (rowsChars rows) := by
  rw [Part.chars]
  rfl

theorem leaf_chars (kind : Leaf) (text : Text) :
    (kind.part text).chars = kind.canonical text.toList := by
  cases kind <;> simp [Leaf.part, Part.chars, Leaf.canonical]

theorem row_chars_single (part : Part) : rowChars [part] = part.chars := by
  simp [rowChars, separated]

theorem rows_chars_single (row : List Part) : rowsChars [row] = rowChars row := by
  simp [rowsChars, separated]

theorem row_chars_append {left : List Part} (right : List Part) (some : left ≠ []) :
    rowChars (left ++ right) = rowChars left ++ right.flatMap ([.char ' '] ++ ·.chars) := by
  rw [rowChars, List.map_append, separated_append _ _ (by simp [some]), List.flatMap_map]
  rfl

theorem rows_chars_append {left : List (List Part)} (right : List (List Part)) (some : left ≠ []) :
    rowsChars (left ++ right) = rowsChars left ++ right.flatMap ([.char ' ', .char '|', .char ' '] ++ rowChars ·) := by
  rw [rowsChars, List.map_append, separated_append _ _ (by simp [some]), List.flatMap_map]
  rfl

theorem row_chars_marked {row : List Part} (some : row ≠ []) :
    [.char ' '] ++ rowChars row = row.flatMap ([.char ' '] ++ ·.chars) := by
  rw [rowChars, separated_marked _ (by simp [some]), List.flatMap_map]

theorem rows_chars_marked {rows : List (List Part)} (some : rows ≠ []) :
    [.char ' ', .char '|', .char ' '] ++ rowsChars rows =
      rows.flatMap ([.char ' ', .char '|', .char ' '] ++ rowChars ·) := by
  rw [rowsChars, separated_marked _ (by simp [some]), List.flatMap_map]

/-- There are rows, and none of them is empty. -/
def RowsFilled (rows : List (List Part)) : Prop := rows ≠ [] ∧ ∀ row ∈ rows, row ≠ []

namespace Tree

theorem element_filled {tree : Tree} (filled : RowsFilled tree.flat) :
    tree.flatElement tree.flat ≠ [] := by
  obtain ⟨some, each⟩ := filled
  obtain ⟨row, more, rows⟩ := List.exists_cons_of_ne_nil some
  have present := each row (by simp [rows])
  unfold flatElement
  split <;> simp [rows, present]

theorem flat_filled (tree : Tree) : RowsFilled tree.flat := by
  induction tree with
  | leaf kind text trivia => simp [flat, RowsFilled]
  | repeated repetition child trivia _ => simp [flat, RowsFilled]
  | choice first rest trivia ihFirst ihRest =>
      refine ⟨by simp [flat, ihFirst.1], fun row member => ?_⟩
      simp only [flat, flat_alternatives_exact, List.mem_append, List.mem_flatMap] at member
      rcases member with here | ⟨tree, later, here⟩
      · exact ihFirst.2 row here
      · exact (ihRest tree later).2 row here
  | sequence first rest trivia ihFirst _ => simp [flat, RowsFilled, element_filled ihFirst]

theorem canonical_alternatives_exact (trees : List Tree) :
    canonicalAlternatives trees = trees.flatMap ([.char ' ', .char '|', .char ' '] ++ ·.canonicalChars) := by
  induction trees with
  | nil => rfl
  | cons tree rest ih => simp [canonicalAlternatives, ih]

theorem canonical_elements_exact (trees : List Tree) :
    canonicalElements trees = trees.flatMap fun tree => [.char ' '] ++
      (if tree.isChoice then parenthesized tree.canonicalChars else tree.canonicalChars) := by
  induction trees with
  | nil => rfl
  | cons tree rest ih => simp [canonicalElements, ih]

theorem element_chars {tree : Tree} (line : tree.canonicalChars = rowsChars tree.flat) :
    (if tree.isChoice then parenthesized tree.canonicalChars else tree.canonicalChars) =
      rowChars (tree.flatElement tree.flat) := by
  cases choice : tree.isChoice with
  | true => simp [line, flatElement, choice, row_chars_single, group_chars]
  | false =>
      rw [line, flat_single choice]
      simp [flatElement, choice, rows_chars_single]

theorem operand_chars {tree : Tree} (line : tree.canonicalChars = rowsChars tree.flat) :
    (if tree.isGroup then parenthesized tree.canonicalChars else tree.canonicalChars) =
      (tree.flatOperand tree.flat).chars := by
  cases group : tree.isGroup with
  | true => simp [line, flat_operand_group group, group_chars]
  | false =>
      have sole : rowsChars tree.flat = rowsChars [[tree.flatOperand tree.flat]] :=
        congrArg rowsChars (flat_sole group)
      simp [line, sole, rows_chars_single, row_chars_single]

/-- The canonical line of a tree is the line of its flat form. -/
theorem canonical_chars_flat (tree : Tree) : tree.canonicalChars = rowsChars tree.flat := by
  induction tree with
  | leaf kind text trivia =>
      simp [canonicalChars, flat, rows_chars_single, row_chars_single, leaf_chars]
  | repeated repetition child trivia ih =>
      rw [canonicalChars, operand_chars ih, flat, rows_chars_single, row_chars_single, Part.chars]
  | choice first rest trivia ihFirst ihRest =>
      -- A child that is a choice itself brings its alternatives with the same mark between them.
      have later : canonicalAlternatives rest =
          (flatAlternatives rest).flatMap ([.char ' ', .char '|', .char ' '] ++ rowChars ·) := by
        rw [canonical_alternatives_exact, flat_alternatives_exact, List.flatMap_assoc]
        apply List.flatMap_congr
        intro tree member
        rw [ihRest tree member, rows_chars_marked tree.flat_filled.1]
      rw [canonicalChars, ihFirst, later, flat, rows_chars_append _ first.flat_filled.1]
  | sequence first rest trivia ihFirst ihRest =>
      have later : canonicalElements rest = (flatElements rest).flatMap ([.char ' '] ++ ·.chars) := by
        rw [canonical_elements_exact, flat_elements_exact, List.flatMap_assoc]
        apply List.flatMap_congr
        intro tree member
        rw [element_chars (ihRest tree member), row_chars_marked (element_filled tree.flat_filled)]
      rw [canonicalChars, element_chars ihFirst, later, flat, rows_chars_single,
        row_chars_append _ (element_filled first.flat_filled)]

end Tree

end GrammarPage
