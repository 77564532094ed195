import Mathlib.Logic.Relation
import GrammarPage.Proofs.Grammar.Agreement
import GrammarPage.Proofs.Tree.Induction

/-!
What a comparison does not see: trivia, comments and flags, links, the name of a grammar, and every
production that no look-up finds. The order of the productions shows in the order of a report only.
-/

namespace GrammarPage

namespace Tree

mutual
/-- The tree without any trivia. -/
def stripped : Tree → Tree
  | .leaf kind text _ => .leaf kind text .bare
  | .repeated repetition child _ => .repeated repetition (stripped child) .bare
  | .choice first rest _ => .choice (stripped first) (strippedAll rest) .bare
  | .sequence first rest _ => .sequence (stripped first) (strippedAll rest) .bare

def strippedAll : List Tree → List Tree
  | [] => []
  | tree :: rest => stripped tree :: strippedAll rest
end

theorem stripped_is_choice (tree : Tree) : tree.stripped.isChoice = tree.isChoice := by
  cases tree <;> rfl

theorem stripped_is_group (tree : Tree) : tree.stripped.isGroup = tree.isGroup := by
  cases tree <;> rfl

section Lists
variable {trees : List Tree} (lines : ∀ tree ∈ trees, tree.stripped.canonicalChars = tree.canonicalChars)
include lines

theorem stripped_alternatives :
    canonicalAlternatives (strippedAll trees) = canonicalAlternatives trees := by
  induction trees with
  | nil => rfl
  | cons tree rest ih =>
      rw [strippedAll, canonicalAlternatives, lines tree List.mem_cons_self,
        ih fun other member => lines other (List.mem_cons_of_mem tree member), canonicalAlternatives]

theorem stripped_elements : canonicalElements (strippedAll trees) = canonicalElements trees := by
  induction trees with
  | nil => rfl
  | cons tree rest ih =>
      rw [strippedAll, canonicalElements, lines tree List.mem_cons_self, stripped_is_choice,
        ih fun other member => lines other (List.mem_cons_of_mem tree member), canonicalElements]

end Lists

theorem stripped_chars (tree : Tree) : tree.stripped.canonicalChars = tree.canonicalChars := by
  induction tree with
  | leaf kind text trivia => rfl
  | repeated repetition child trivia ih =>
      rw [stripped, canonicalChars, ih, stripped_is_group, canonicalChars]
  | choice first rest trivia ihFirst ihRest =>
      rw [stripped, canonicalChars, ihFirst, stripped_alternatives ihRest, canonicalChars]
  | sequence first rest trivia ihFirst ihRest =>
      rw [stripped, canonicalChars, ihFirst, stripped_elements ihRest, stripped_is_choice, canonicalChars]

end Tree

/-- The same production laid out anew: nothing but trivia, the comment and the flag may differ. -/
def Production.Relaid (before after : Production) : Prop :=
  before.name = after.name ∧ before.body.map Tree.stripped = after.body.map Tree.stripped

theorem Production.relaid_canonical {before after : Production} (relaid : before.Relaid after) :
    before.canonical = after.canonical := by
  obtain ⟨name, body, _, _⟩ := before
  obtain ⟨name', body', _, _⟩ := after
  obtain ⟨rfl, bodies⟩ : name = name' ∧ body.map Tree.stripped = body'.map Tree.stripped := relaid
  cases body with
  | none =>
      obtain rfl : body' = none := by simpa using bodies.symm
      rfl
  | some tree =>
      obtain ⟨tree', rfl, same⟩ : ∃ tree', body' = some tree' ∧ tree'.stripped = tree.stripped := by
        simpa using bodies.symm
      have lines : tree.canonical = tree'.canonical := by
        rw [Tree.canonical, Tree.canonical, ← tree.stripped_chars, ← tree'.stripped_chars, same]
      simp only [Production.canonical, Production.label, lines]

/-- No look-up finds a production behind others if it has no name or one of them has its name. -/
def Passed (front : List Production) (production : Production) : Prop :=
  production.name = none ∨ ∃ earlier ∈ front, earlier.name = production.name

/-- A single edit of what a comparison does not see. -/
inductive Edit : Grammar → Grammar → Prop where
  | relay (front back : List Production) (production relaid : Production) (name : Option Text)
      (links : LinkTable) (same : production.Relaid relaid) :
      Edit ⟨front ++ production :: back, name, links⟩ ⟨front ++ relaid :: back, name, links⟩
  | insert (front back : List Production) (production : Production) (name : Option Text)
      (links : LinkTable) (passed : Passed front production) :
      Edit ⟨front ++ back, name, links⟩ ⟨front ++ production :: back, name, links⟩
  | remove (front back : List Production) (production : Production) (name : Option Text)
      (links : LinkTable) (passed : Passed front production) :
      Edit ⟨front ++ production :: back, name, links⟩ ⟨front ++ back, name, links⟩
  | rename (productions : List Production) (name renamed : Option Text) (links : LinkTable) :
      Edit ⟨productions, name, links⟩ ⟨productions, renamed, links⟩
  | relink (productions : List Production) (name : Option Text) (links relinked : LinkTable) :
      Edit ⟨productions, name, links⟩ ⟨productions, name, relinked⟩

/-- Another order of productions, in which those of one name stand as they stood. -/
def Reordered (before after : List Production) : Prop :=
  before.Perm after ∧
    ∀ name : Text, before.filter (·.name = some name) = after.filter (·.name = some name)

/-- The entries of a report in another order. -/
def Report.Reordered (left right : Report) : Prop :=
  left.mismatches.Perm right.mismatches ∧ left.missingInCopy.Perm right.missingInCopy ∧
    left.missingInAuthority.Perm right.missingInAuthority

section Names

theorem first_occurrences_filter (keep : Text → Bool) (names : List Text) :
    (firstOccurrences names).filter keep = firstOccurrences (names.filter keep) := by
  induction names with
  | nil => rfl
  | cons first rest ih =>
      by_cases kept : keep first = true
      · rw [List.filter_cons_of_pos kept, firstOccurrences, firstOccurrences, ← ih,
          List.filter_cons_of_pos kept, List.filter_filter, List.filter_filter]
        simp only [Bool.and_comm]
      · -- What is kept differs from the first name already.
        have apart : ∀ name, (keep name && decide (name ≠ first)) = keep name := by
          intro name
          by_cases same : name = first <;> simp_all
        rw [List.filter_cons_of_neg kept, firstOccurrences, List.filter_cons_of_neg kept,
          List.filter_filter, ← ih]
        simp only [apart]

theorem first_occurrences_again {name : Text} {front : List Text} (before : name ∈ front)
    (back : List Text) : firstOccurrences (front ++ name :: back) = firstOccurrences (front ++ back) := by
  induction front with
  | nil => simp at before
  | cons first rest ih =>
      rw [List.cons_append, List.cons_append, firstOccurrences, firstOccurrences]
      rcases List.mem_cons.mp before with rfl | later
      · -- The first of the name takes every later one out of the rest.
        rw [first_occurrences_filter, first_occurrences_filter, List.filter_append, List.filter_append,
          List.filter_cons_of_neg (by simp)]
      · rw [ih later]

theorem first_occurrences_perm {left right : List Text} (order : left.Perm right) :
    (firstOccurrences left).Perm (firstOccurrences right) := by
  rw [List.perm_ext_iff_of_nodup (first_occurrences_nodup left) (first_occurrences_nodup right)]
  intro name
  rw [mem_first_occurrences, mem_first_occurrences]
  exact order.mem_iff

end Names

namespace Grammar

theorem mismatch_congr {authority authority' copy copy' : Grammar}
    (left : authority.canonicalOf? = authority'.canonicalOf?)
    (right : copy.canonicalOf? = copy'.canonicalOf?) :
    mismatch? authority copy = mismatch? authority' copy' := by
  funext name
  rw [mismatch?, mismatch?, left, right]

-- Whether a name is missing hangs on which lines the other grammar has, not on their order.
theorem missing_from_congr {left right : Grammar} (lines : left.canonicalOf? = right.canonicalOf?)
    (grammar : Grammar) (start : Text) :
    grammar.missingFrom left start = grammar.missingFrom right start := by
  have held : ∀ name, left.names.contains name = right.names.contains name := by
    intro name
    rw [Bool.eq_iff_iff, List.contains_iff_mem, List.contains_iff_mem, ← has_line_iff,
      ← has_line_iff, lines]
  simp only [missingFrom, held]

section Reports
variable {grammar changed : Grammar} (lines : grammar.canonicalOf? = changed.canonicalOf?)
  (other : Grammar) (start : Text)
include lines

/-- Grammars whose lines agree have the same report but for the order that the names give it. -/
theorem compare_reordered (names : grammar.defined.Perm changed.defined) :
    (grammar.compare other start).Reordered (changed.compare other start) ∧
      (other.compare grammar start).Reordered (other.compare changed start) := by
  have own : (grammar.missingFrom other start).Perm (changed.missingFrom other start) := names.filter _
  refine ⟨⟨?_, own, ?_⟩, ?_, ?_, own⟩
  · rw [compare, compare, mismatch_congr lines rfl]
    exact names.filterMap _
  · rw [compare, compare, missing_from_congr lines]
  · rw [compare, compare, mismatch_congr rfl lines]
  · rw [compare, compare, missing_from_congr lines]

theorem compare_unchanged (names : grammar.defined = changed.defined) :
    grammar.compare other start = changed.compare other start ∧
      other.compare grammar start = other.compare changed start := by
  have own : grammar.missingFrom other start = changed.missingFrom other start := by
    rw [missingFrom, missingFrom, names]
  constructor
  · rw [compare, compare, mismatch_congr lines rfl, missing_from_congr lines, own, names]
  · rw [compare, compare, mismatch_congr rfl lines, missing_from_congr lines, own]

end Reports

theorem lookup_passed {front : List Production} {production : Production}
    (passed : Passed front production) (back : List Production) (name : Text) :
    (front ++ production :: back).find? (·.name = some name) =
      (front ++ back).find? (·.name = some name) := by
  rw [List.find?_append, List.find?_append]
  by_cases named : production.name = some name
  · -- The look-up ends in front of the production, at one of the same name.
    obtain ⟨earlier, member, same⟩ : ∃ earlier ∈ front, earlier.name = production.name := by
      rcases passed with nameless | earlier
      · simp [nameless] at named
      · exact earlier
    have found : (front.find? (·.name = some name)).isSome = true := by
      rw [List.find?_isSome]
      exact ⟨earlier, member, by simp [same, named]⟩
    obtain ⟨first, found⟩ := Option.isSome_iff_exists.mp found
    rw [found, Option.some_or, Option.some_or]
  · rw [List.find?_cons_of_neg (by simpa using named)]

theorem defined_passed {front : List Production} {production : Production}
    (passed : Passed front production) (back : List Production) :
    firstOccurrences ((front ++ production :: back).filterMap (·.name)) =
      firstOccurrences ((front ++ back).filterMap (·.name)) := by
  rw [List.filterMap_append, List.filterMap_append]
  cases named : production.name with
  | none => rw [List.filterMap_cons_none named]
  | some name =>
      obtain ⟨earlier, member, same⟩ : ∃ earlier ∈ front, earlier.name = some name := by
        simpa [Passed, named] using passed
      rw [List.filterMap_cons_some named]
      exact first_occurrences_again (List.mem_filterMap.mpr ⟨earlier, member, same⟩) _

/-- The names in their order and the line of each, which is all that a comparison sees. -/
def SameRules (left right : Grammar) : Prop :=
  left.defined = right.defined ∧ left.canonicalOf? = right.canonicalOf?

theorem same_rules_passed {front : List Production} {production : Production}
    (passed : Passed front production) (back : List Production) (name : Option Text)
    (links : LinkTable) :
    SameRules ⟨front ++ production :: back, name, links⟩ ⟨front ++ back, name, links⟩ := by
  refine ⟨defined_passed passed back, funext fun wanted => ?_⟩
  rw [canonicalOf?, canonicalOf?, lookup?, lookup?, lookup_passed passed]

theorem same_rules_relaid (front back : List Production) {production relaid : Production}
    (same : production.Relaid relaid) (name : Option Text) (links : LinkTable) :
    SameRules ⟨front ++ production :: back, name, links⟩ ⟨front ++ relaid :: back, name, links⟩ := by
  constructor
  · simp only [defined, names, List.filterMap_append, List.filterMap_cons, same.1]
  · funext wanted
    simp only [canonicalOf?, lookup?, List.find?_append, List.find?_cons, same.1, Option.map_or]
    split
    · simp only [Option.map_some, production.relaid_canonical same]
    · rfl

theorem same_rules_edit {before after : Grammar} (edit : Edit before after) : before.SameRules after := by
  cases edit with
  | relay front back _ _ name links same => exact same_rules_relaid front back same name links
  | insert front back _ name links passed =>
      have removed := same_rules_passed passed back name links
      exact ⟨removed.1.symm, removed.2.symm⟩
  | remove front back _ name links passed => exact same_rules_passed passed back name links
  | rename | relink => exact ⟨rfl, rfl⟩

theorem same_rules_edits {before after : Grammar} (edits : Relation.ReflTransGen Edit before after) :
    before.SameRules after := by
  induction edits with
  | refl => exact ⟨rfl, rfl⟩
  | tail _ edit ih =>
      have last := same_rules_edit edit
      exact ⟨ih.1.trans last.1, ih.2.trans last.2⟩

theorem defined_reordered {before after : List Production} (order : Reordered before after) :
    (firstOccurrences (before.filterMap (·.name))).Perm (firstOccurrences (after.filterMap (·.name))) :=
  first_occurrences_perm (order.1.filterMap _)

theorem lookup_reordered {before after : List Production} (order : Reordered before after)
    (name : Text) : before.find? (·.name = some name) = after.find? (·.name = some name) := by
  rw [← List.head?_filter, ← List.head?_filter, order.2 name]

/-- A report stays as it is under every edit of trivia, comments, flags, links, the grammar's name and
productions that are passed over, on either side. Another order of the productions gives it another order
of its entries, and no more. -/
theorem comparison_sees_rules_only (grammar : Grammar) :
    (∀ changed, Relation.ReflTransGen Edit grammar changed → ∀ other start,
      grammar.compare other start = changed.compare other start ∧
        other.compare grammar start = other.compare changed start) ∧
    ∀ productions, Reordered grammar.productions productions → ∀ other start,
      (grammar.compare other start).Reordered ({ grammar with productions }.compare other start) ∧
        (other.compare grammar start).Reordered (other.compare { grammar with productions } start) := by
  constructor
  · intro changed edits other start
    obtain ⟨names, lines⟩ := same_rules_edits edits
    exact compare_unchanged lines other start names
  · intro productions order other start
    have lines : grammar.canonicalOf? = { grammar with productions }.canonicalOf? := by
      funext name
      rw [canonicalOf?, canonicalOf?, lookup?, lookup?, lookup_reordered order]
    exact compare_reordered lines other start (defined_reordered order)

theorem comparison_sees_rules_only_rearranged :
    let tight : Tree := .sequence (.leaf .reference "B" .bare) [.leaf .terminal "x" .bare] .bare
    let loose : Tree := .sequence (.leaf .reference "B" ⟨" ", some "first", false⟩)
      [.leaf .terminal "x" ⟨"", none, true⟩] ⟨"  ", none, false⟩
    let rule : Production := ⟨some "A", some tight, none, false⟩
    let laidOut : Production := ⟨some "A", some loose, some "anew", true⟩
    let remark : Production := ⟨none, none, some "remark", false⟩
    let opening : Production := ⟨some "start", some (.leaf .reference "A" .bare), none, false⟩
    let repeated : Production := ⟨some "A", none, some "again", false⟩
    let links := LinkTable.empty.insert "A" ⟨some "#a", none⟩
    let grammar : Grammar := ⟨[rule, remark, opening], none, .empty⟩
    let changed : Grammar := ⟨[laidOut, opening, repeated], some "G", links⟩
    let productions := [opening, laidOut, repeated]
    let copy : Grammar := ⟨[⟨some "A", some (.leaf .reference "B" .bare), none, false⟩], none, .empty⟩
    Relation.ReflTransGen Edit grammar changed ∧
      Reordered changed.productions productions ∧
      (grammar.compare copy "end").ok = false ∧
      grammar.compare copy "end" = changed.compare copy "end" ∧
      copy.compare grammar "end" = copy.compare changed "end" ∧
      (changed.compare copy "end").Reordered ({ changed with productions }.compare copy "end") ∧
      (copy.compare changed "end").Reordered (copy.compare { changed with productions } "end") := by
  intro tight loose rule laidOut remark opening repeated links grammar changed productions copy
  have edits : Relation.ReflTransGen Edit grammar changed :=
    .head (.relay [] [remark, opening] rule laidOut none .empty ⟨rfl, by decide⟩) <|
    .head (.remove [laidOut] [opening] remark none .empty (.inl rfl)) <|
    .head (.insert [laidOut, opening] [] repeated none .empty (.inr ⟨laidOut, by simp, rfl⟩)) <|
    .head (.rename _ none (some "G") .empty) <|
    .single (.relink _ (some "G") .empty links)
  have order : Reordered changed.productions productions := by
    refine ⟨.swap opening laidOut [repeated], fun name => ?_⟩
    by_cases last : name = "start"
    · subst last
      rfl
    · simp [changed, productions, List.filter_cons, opening, Ne.symm last]
  have same := (comparison_sees_rules_only grammar).1 changed edits copy "end"
  exact ⟨edits, order, by decide, same.1, same.2,
    (comparison_sees_rules_only changed).2 productions order copy "end"⟩

end Grammar

end GrammarPage
