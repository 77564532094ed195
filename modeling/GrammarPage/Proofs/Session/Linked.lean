import GrammarPage.Proofs.Grammar.Transplanted
import GrammarPage.Proofs.Session.States

/-!
Where the links of held grammars come from. Loading gives links to names of productions only, and only
links that say something; enrichment carries over such links, and a reload finds nothing to leave out. So
a grammar that came about in these ways is its document read again.
-/

namespace GrammarPage

namespace Grammar
open Interchange

/-- Every link belongs to the name of a production, and says something. -/
def Linked (grammar : Grammar) : Prop :=
  ∀ name link, grammar.links.get? name = some link → name ∈ grammar.names ∧ link.isGiven = true

theorem linked_of_read {document : Json} {grammar : Grammar}
    (read : readGrammar document = .ok grammar) : grammar.Linked := by
  obtain ⟨_, _, entries, -, -, -, rfl⟩ := read_grammar_iff.mp read
  intro name link held
  have none : LinkTable.empty.get? name = none := rfl
  simp only [seeds_get, none, Option.none_or, Option.map_eq_some_iff] at held
  obtain ⟨entry, found, rfl⟩ := held
  have gives : entry.1.name = some name ∧ entry.2.isGiven = true := by
    simpa using List.find?_some found
  have member := List.mem_map_of_mem (f := (·.1)) (List.mem_of_find?_eq_some found)
  exact ⟨List.mem_filterMap.mpr ⟨entry.1, member, gives.1⟩, gives.2⟩

theorem linked_enrich {authority copy : Grammar} (own : authority.Linked) (other : copy.Linked) :
    (authority.enrich copy).Linked := by
  intro name link held
  rw [enrich_get] at held
  by_cases member : name ∈ authority.names
  · rw [if_pos member, offeredLink?] at held
    split at held
    · exact ⟨member, (other name link held).2⟩
    · cases held
  · rw [if_neg member] at held
    exact own name link held

/-- A document depends on the links only as a mapping. -/
theorem document_congr {left right : Grammar} (productions : left.productions = right.productions)
    (names : left.name = right.name) (links : ∀ name, left.links.get? name = right.links.get? name) :
    left.document = right.document := by
  have tables : left.links.get? = right.links.get? := funext links
  have entries : Production.document left.links = Production.document right.links := by
    funext production
    rw [Production.document, Production.document, tables]
  rw [document, document, entries, productions, names]

/-- Such a grammar is what its document reads as, links and all, and so its document is read and written
without loss. -/
theorem reload_linked {grammar : Grammar} (linked : grammar.Linked) :
    ∃ reloaded, readGrammar grammar.document = .ok reloaded ∧
      reloaded.productions = grammar.productions ∧ reloaded.name = grammar.name ∧
      (∀ name, reloaded.links.get? name = grammar.links.get? name) ∧
      reloaded.document = grammar.document := by
  have links : ∀ name, grammar.seeded.get? name = grammar.links.get? name := by
    intro name
    rw [seeded_get]
    cases held : grammar.links.get? name with
    | none => simp
    | some link =>
        obtain ⟨member, given⟩ := linked name link held
        simp [member, given, Option.filter]
  exact ⟨_, read_grammar_document grammar, rfl, rfl, links, document_congr rfl rfl links⟩

end Grammar

namespace Session

/-- All changes but two: setting a link by hand, and putting other productions under the links. -/
def Change.regular : Change → Bool
  | .load _ _ | .setName _ _ | .enrich _ _ | .reload _ _ | .makeEmitter _ _ _ => true
  | .setLink _ _ _ | .setProductions _ _ => false

def Step.regular : Step → Bool
  | .change made => made.regular
  | .ask _ => true

def Linked (session : Session) : Prop := ∀ grammar ∈ session.grammars, grammar.Linked

variable {session : Session}

theorem linked_found (linked : session.Linked) {name : Text} {number : Nat} {grammar : Grammar}
    (found : session.find name = .ok (number, grammar)) : grammar.Linked :=
  linked grammar (List.mem_of_getElem? (find_iff.mp found).2)

theorem linked_bind (linked : session.Linked) {name : Text} {grammar : Grammar}
    (new : grammar.Linked) : (session.bind name grammar).Linked := by
  intro held member
  rcases List.mem_append.mp member with old | last
  · exact linked held old
  · obtain rfl := List.mem_singleton.mp last
    exact new

theorem linked_update (linked : session.Linked) {number : Nat} {grammar : Grammar}
    (new : grammar.Linked) : (session.update number grammar).Linked := by
  intro held member
  rcases List.mem_or_eq_of_mem_set member with old | rfl
  · exact linked held old
  · exact new

theorem linked_changed {change : Change} {changed : Session} (changes : Changed session change changed)
    (regular : change.regular = true) (linked : session.Linked) : changed.Linked := by
  cases changes with
  | load name read => exact linked_bind linked (Grammar.linked_of_read read)
  | setLink name link found => simp [Change.regular] at regular
  | setName name found =>
      have own := linked_found linked found
      exact linked_update linked own
  | setProductions found foundSource => simp [Change.regular] at regular
  | enrich found foundCopy =>
      exact linked_update linked
        (Grammar.linked_enrich (linked_found linked found) (linked_found linked foundCopy))
  | reload name found read => exact linked_bind linked (Grammar.linked_of_read read)
  | makeEmitter name settings found => exact linked

theorem linked_after {steps : List Step} (regular : ∀ step ∈ steps, step.regular = true)
    (linked : session.Linked) : (session.after steps).Linked := by
  induction steps generalizing session with
  | nil => exact linked
  | cons step rest ih =>
      have first : (session.behind step).Linked := by
        rcases behind_step step with ⟨change, rfl, changes⟩ | ⟨same, -⟩
        · exact linked_changed changes (regular _ List.mem_cons_self) linked
        · rw [Linked, same]
          exact linked
      exact ih (fun other member => regular other (List.mem_cons_of_mem step member)) first

/-- In every state reached from nothing by loading, enriching, renaming and reloading, each link belongs to
the name of a production and says something, so a reload loses nothing and says so. -/
theorem links_kept_over_sessions (steps : List Step) (regular : ∀ step ∈ steps, step.regular = true) :
    let session := start.after steps
    ∀ grammar ∈ session.grammars,
      (∀ entry ∈ grammar.links.entries,
        (∃ production ∈ grammar.productions, production.name = some entry.1) ∧
          (entry.2.target.getD "" ≠ "" ∨ entry.2.title.getD "" ≠ "")) ∧
      ∃ reloaded, Interchange.readGrammar grammar.document = .ok reloaded ∧
        reloaded.productions = grammar.productions ∧ reloaded.name = grammar.name ∧
        (∀ name, reloaded.links.get? name = grammar.links.get? name) ∧
        reloaded.document = grammar.document ∧
        ∀ name number other, session.find name = .ok (number, grammar) →
          session.step (.change (.reload other name)) =
            .ok (session.bind other reloaded, .reloaded true true reloaded.links) := by
  intro session grammar held
  have linked : grammar.Linked := linked_after regular (by simp [Linked, start]) grammar held
  refine ⟨fun ⟨name, link⟩ member => ?_, ?_⟩
  · obtain ⟨named, given⟩ := linked name link (LinkTable.get_eq_some_iff.mpr member)
    exact ⟨List.mem_filterMap.mp named, (Grammar.is_given_iff link).mp given⟩
  · obtain ⟨reloaded, read, productions, name, links, document⟩ := Grammar.reload_linked linked
    refine ⟨reloaded, read, productions, name, links, document, fun name number other found => ?_⟩
    have same : reloaded.links.agrees grammar.links = true := LinkTable.agrees_iff.mpr links
    simp only [step, change, bind_ok_iff, map_error_ok_iff]
    refine ⟨(number, grammar), found, reloaded, read, ?_⟩
    simp only [productions, same, decide_true]
    rfl

theorem links_kept_over_sessions_enriched :
    let entry (members : List (Text × Json)) : Json := .object members
    let first : Json := .object [("name", .str "first"), ("productions", .list [
      entry [("name", .str "A"), ("link", .str "#a")], entry [("name", .str "B"), ("link", .str "")],
      entry [("name", .str "A"), ("link_name", .str "again")]])]
    let second : Json := .object [("productions", .list [
      entry [("name", .str "B"), ("link_name", .str "Beta"), ("comment", .str "documented")]])]
    let steps : List Step := [.change (.load "x" first), .change (.load "y" second)] ++
      [.change (.enrich "y" "y"), .change (.enrich "x" "y"), .change (.load "x" .null),
        .change (.setName "x" none), .change (.reload "z" "x"), .ask (.links "z")]
    let rule (name : Text) : Production := ⟨some name, none, none, false⟩
    let grammar : Grammar :=
      ⟨[rule "A", rule "B", rule "A"], none, LinkTable.empty.insert "B" ⟨none, some "Beta"⟩⟩
    (∀ step ∈ steps, step.regular = true) ∧ (start.after steps).find "z" = .ok (2, grammar) ∧
      ∃ reloaded, Interchange.readGrammar grammar.document = .ok reloaded ∧
        (∀ name, reloaded.links.get? name = grammar.links.get? name) ∧
        (start.after steps).step (.change (.reload "x" "z")) =
          .ok ((start.after steps).bind "x" reloaded, .reloaded true true reloaded.links) := by
  intro entry first second steps rule grammar
  let loaded : Session :=
    ⟨[⟨[rule "A", rule "B", rule "A"], some "first", LinkTable.empty.insert "A" ⟨some "#a", none⟩⟩,
      ⟨[⟨some "B", none, some "documented", false⟩], none,
        LinkTable.empty.insert "B" ⟨none, some "Beta"⟩⟩], [("y", 1), ("x", 0)], []⟩
  have regular : ∀ step ∈ steps, step.regular = true := by decide
  have front : start.after [.change (.load "x" first), .change (.load "y" second)] = loaded := rfl
  have found : (start.after steps).find "z" = .ok (2, grammar) := by
    rw [after_append, front]
    rfl
  have held : grammar ∈ (start.after steps).grammars := List.mem_of_getElem? (find_iff.mp found).2
  obtain ⟨-, reloaded, read, -, -, links, -, again⟩ := links_kept_over_sessions steps regular grammar held
  exact ⟨regular, found, reloaded, read, links, again "z" 2 "x" found⟩

end Session

end GrammarPage
