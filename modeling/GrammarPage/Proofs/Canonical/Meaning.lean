import Mathlib.Computability.Language
import GrammarPage.Proofs.Canonical.Unambiguous
import GrammarPage.Proofs.Grammar.Agreement

/-!
What a tree means, given a language for every name: a terminal its own text, a choice the union, a
sequence the concatenation. The flat form keeps the meaning, so the canonical line, which determines the
flat form, determines the meaning. Grammars that compare as equal therefore mean the same, name by name.
-/

open Computability

namespace GrammarPage

def Leaf.language (names : Text → Language CodePoint) (text : Text) : Leaf → Language CodePoint
  | .terminal => {text.toList}
  | .extendedTerminal | .reference => names text

def Repetition.language (inner : Language CodePoint) : Repetition → Language CodePoint
  | .oneOrMore => inner * inner∗
  | .zeroOrMore => inner∗
  | .zeroOrOne => 1 + inner

section Meaning
variable (names : Text → Language CodePoint)

mutual
def Tree.language : Tree → Language CodePoint
  | .leaf kind text _ => kind.language names text
  | .repeated repetition child _ => repetition.language child.language
  | .choice first rest _ => first.language + Tree.anyLanguage rest
  | .sequence first rest _ => first.language * Tree.allLanguage rest

def Tree.anyLanguage : List Tree → Language CodePoint
  | [] => 0
  | tree :: rest => tree.language + Tree.anyLanguage rest

def Tree.allLanguage : List Tree → Language CodePoint
  | [] => 1
  | tree :: rest => tree.language * Tree.allLanguage rest
end

def Part.language : Part → Language CodePoint
  | .literal text => {text.toList}
  | .name text => names text
  | .repeated repetition part => repetition.language part.language
  | .group rows => (rows.map fun row => (row.map language).prod).sum
termination_by part => part
decreasing_by
  · decreasing_tactic
  · rename_i inRows _ inRow
    have outer := List.sizeOf_lt_of_mem inRows
    have inner := List.sizeOf_lt_of_mem inRow
    simp only [Part.group.sizeOf_spec]
    omega

def rowLanguage (row : List Part) : Language CodePoint := (row.map (Part.language names)).prod

def rowsLanguage (rows : List (List Part)) : Language CodePoint := (rows.map (rowLanguage names)).sum

theorem leaf_language (kind : Leaf) (text : Text) :
    (kind.part text).language names = kind.language names text := by
  cases kind <;> simp [Leaf.part, Part.language, Leaf.language]

theorem group_language (rows : List (List Part)) :
    (Part.group rows).language names = rowsLanguage names rows := by
  rw [Part.language]
  rfl

theorem row_language_single (part : Part) : rowLanguage names [part] = part.language names := by
  simp [rowLanguage]

theorem rows_language_single (row : List Part) : rowsLanguage names [row] = rowLanguage names row := by
  simp [rowsLanguage]

theorem row_language_append (left right : List Part) :
    rowLanguage names (left ++ right) = rowLanguage names left * rowLanguage names right := by
  simp [rowLanguage]

theorem rows_language_append (left right : List (List Part)) :
    rowsLanguage names (left ++ right) = rowsLanguage names left + rowsLanguage names right := by
  simp [rowsLanguage]

namespace Tree

theorem element_language {tree : Tree} (flat : tree.language names = rowsLanguage names tree.flat) :
    rowLanguage names (tree.flatElement tree.flat) = tree.language names := by
  cases choice : tree.isChoice with
  | true => simp [flat, flatElement, choice, row_language_single, group_language]
  | false =>
      rw [flat, flat_single choice]
      simp [flatElement, choice, rows_language_single]

theorem operand_language {tree : Tree} (flat : tree.language names = rowsLanguage names tree.flat) :
    (tree.flatOperand tree.flat).language names = tree.language names := by
  cases group : tree.isGroup with
  | true => simp [flat, flat_operand_group group, group_language]
  | false =>
      have sole := congrArg (rowsLanguage names) (flat_sole group)
      rw [flat, sole, rows_language_single, row_language_single]

theorem any_language_flat {trees : List Tree}
    (flat : ∀ tree ∈ trees, tree.language names = rowsLanguage names tree.flat) :
    anyLanguage names trees = rowsLanguage names (flatAlternatives trees) := by
  induction trees with
  | nil => simp [anyLanguage, flatAlternatives, rowsLanguage]
  | cons tree rest ih =>
      rw [anyLanguage, flatAlternatives, rows_language_append, flat tree (by simp),
        ih fun tree member => flat tree (List.mem_cons_of_mem _ member)]

theorem all_language_flat {trees : List Tree}
    (flat : ∀ tree ∈ trees, tree.language names = rowsLanguage names tree.flat) :
    allLanguage names trees = rowLanguage names (flatElements trees) := by
  induction trees with
  | nil => simp [allLanguage, flatElements, rowLanguage]
  | cons tree rest ih =>
      rw [allLanguage, flatElements, row_language_append, element_language names (flat tree (by simp)),
        ih fun tree member => flat tree (List.mem_cons_of_mem _ member)]

/-- Nothing of the meaning is lost in the flat form. -/
theorem language_flat (tree : Tree) : tree.language names = rowsLanguage names tree.flat := by
  induction tree with
  | leaf kind text trivia =>
      rw [flat, rows_language_single, row_language_single, leaf_language, language]
  | repeated repetition child trivia ih =>
      rw [flat, rows_language_single, row_language_single, Part.language, operand_language names ih,
        language]
  | choice first rest trivia ihFirst ihRest =>
      rw [language, flat, rows_language_append, ihFirst, any_language_flat names ihRest]
  | sequence first rest trivia ihFirst ihRest =>
      rw [language, flat, rows_language_single, row_language_append, element_language names ihFirst,
        all_language_flat names ihRest]

theorem language_of_canonical {left right : Tree} (plainLeft : left.NamesPlain)
    (plainRight : right.NamesPlain) (same : left.canonicalChars = right.canonicalChars) :
    left.language names = right.language names := by
  rw [canonical_chars_flat, canonical_chars_flat] at same
  have flats := rows_chars_injective (flat_plain plainLeft) (flat_plain plainRight) left.flat_filled
    right.flat_filled same
  rw [language_flat, language_flat, flats]

end Tree
end Meaning

/-- Neither production has a body, or their bodies mean the same whatever the names mean. -/
def Production.SameMeaning (left right : Production) : Prop :=
  (left.body = none ∧ right.body = none) ∨
    ∃ body body', left.body = some body ∧ right.body = some body' ∧
      ∀ names, body.language names = body'.language names

def Production.NamesPlain (production : Production) : Prop := ∀ body ∈ production.body, body.NamesPlain

instance (production : Production) : Decidable production.NamesPlain :=
  Option.decidableForallMem _

theorem canonical_of_bodied {production : Production} {body : Tree}
    (bodied : production.body = some body) :
    production.canonical.toList =
      production.label.toList ++ .char ':' :: .char ' ' :: body.canonicalChars ++ [.char ';'] := by
  simp [Production.canonical, bodied, Tree.canonical]

theorem canonical_of_bodiless {production : Production} (bodiless : production.body = none) :
    production.canonical.toList = [] := by
  simp [Production.canonical, bodiless]

theorem same_meaning_of_canonical {left right : Production} (plainLeft : left.NamesPlain)
    (plainRight : right.NamesPlain) (named : left.name = right.name)
    (same : left.canonical = right.canonical) : left.SameMeaning right := by
  have lines := congrArg Text.toList same
  have labels : left.label = right.label := by rw [Production.label, Production.label, named]
  -- The empty line is the line of a production without a body, and of no other.
  cases bodyLeft : left.body with
  | none =>
      cases bodyRight : right.body with
      | none => exact .inl ⟨bodyLeft, bodyRight⟩
      | some body' => simp [canonical_of_bodiless bodyLeft, canonical_of_bodied bodyRight] at lines
  | some body =>
      cases bodyRight : right.body with
      | none => simp [canonical_of_bodied bodyLeft, canonical_of_bodiless bodyRight] at lines
      | some body' =>
          rw [canonical_of_bodied bodyLeft, canonical_of_bodied bodyRight, labels] at lines
          have bodies : body.canonicalChars = body'.canonicalChars := by simpa using lines
          exact .inr ⟨body, body', bodyLeft, bodyRight, fun names => Tree.language_of_canonical names
            (plainLeft body bodyLeft) (plainRight body' bodyRight) bodies⟩

namespace Grammar

def NamesPlain (grammar : Grammar) : Prop := ∀ production ∈ grammar.productions, production.NamesPlain

instance (grammar : Grammar) : Decidable grammar.NamesPlain := List.decidableBAll _ _

/-- Grammars that compare as equal define the same names, the start symbol apart, and what both define
means the same. -/
theorem same_language_of_compare_ok (authority copy : Grammar) (start : Text)
    (plainAuthority : authority.NamesPlain) (plainCopy : copy.NamesPlain)
    (ok : (authority.compare copy start).ok = true) :
    (∀ name : Text, name ∈ authority.names → name ∈ copy.names →
      ∃ left right, authority.lookup? name = some left ∧ copy.lookup? name = some right ∧
        left.SameMeaning right) ∧
    ∀ name, name ≠ start → (name ∈ authority.names ↔ name ∈ copy.names) := by
  obtain ⟨agree, common⟩ := compare_ok_iff.mp ok
  refine ⟨fun name inAuthority inCopy => ?_, common⟩
  obtain ⟨left, foundLeft⟩ := mem_names_iff.mp inAuthority
  obtain ⟨right, foundRight⟩ := mem_names_iff.mp inCopy
  have named : left.name = right.name := (lookup_name foundLeft).trans (lookup_name foundRight).symm
  exact ⟨left, right, foundLeft, foundRight,
    same_meaning_of_canonical (plainAuthority left (lookup_mem foundLeft))
      (plainCopy right (lookup_mem foundRight)) named (agree name left right foundLeft foundRight)⟩

theorem same_language_of_compare_ok_regrouped :
    let copied := Tree.sequence (.repeated .oneOrMore (.leaf .reference "B" .bare) .bare)
      [.sequence (.leaf .terminal "|" .bare) [.leaf .extendedTerminal "C" .bare] .bare] .bare
    let body := Tree.sequence (.repeated .oneOrMore (.leaf .reference "B" .bare) .bare)
      [.leaf .terminal "|" .bare, .leaf .reference "C" .bare] .bare
    let authority : Grammar :=
      ⟨[⟨some "A", some body, none, false⟩, ⟨some "start", some body, none, true⟩,
        ⟨some "A", none, some "again", false⟩], none, .empty⟩
    let copy : Grammar := ⟨[⟨some "A", some copied, some "copied", true⟩], none, .empty⟩
    authority.NamesPlain ∧ copy.NamesPlain ∧ (authority.compare copy "start").ok = true ∧
      (∀ name : Text, name ∈ authority.names → name ∈ copy.names →
        ∃ left right, authority.lookup? name = some left ∧ copy.lookup? name = some right ∧
          left.SameMeaning right) ∧
      ∀ name : Text, name ≠ "start" → (name ∈ authority.names ↔ name ∈ copy.names) := by
  intro copied body authority copy
  have plainAuthority : authority.NamesPlain := by decide
  have plainCopy : copy.NamesPlain := by decide
  have ok : (authority.compare copy "start").ok = true := by decide
  exact ⟨plainAuthority, plainCopy, ok,
    same_language_of_compare_ok authority copy "start" plainAuthority plainCopy ok⟩

end Grammar

end GrammarPage
