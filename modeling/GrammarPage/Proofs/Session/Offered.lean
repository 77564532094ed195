import GrammarPage.Proofs.Session.Linked

/-!
Links from one document to the grammar of another. A name stands for its first production, but its link is
the first that any of its entries gives: an entry that gives none lets the link of a later one through, and
enrichment carries that over.
-/

namespace GrammarPage

namespace Interchange

def textOf? : Json → Option Text
  | .str text => some text
  | _ => none

/-- The name that an entry of a document writes, and the link. -/
def written (entry : Json) : Option Text × Link :=
  (textOf? (entry.get "name"), ⟨textOf? (entry.get "link"), textOf? (entry.get "link_name")⟩)

/-- The link of the first entry of a name, if that entry gives one. -/
def firstEntryLink (items : List Json) (name : Text) : Option Link :=
  (((items.map written).find? (·.1 = some name)).map (·.2)).filter Link.isGiven

/-- The first link that an entry of a name gives. -/
def firstGivenLink (items : List Json) (name : Text) : Option Link :=
  ((items.map written).find? fun entry => entry.1 = some name ∧ entry.2.isGiven = true).map (·.2)

theorem text_of_text_or_null (text : Option Text) : textOf? (textOrNull text) = text := by
  cases text <;> rfl

theorem written_mirrored {items : List Json} {entries : List (Production × Link)}
    (mirrored : List.Forall₂ (fun item entry => MirrorsProduction item entry.1 ∧ MirrorsLink item entry.2)
      items entries) : items.map written = entries.map fun entry => (entry.1.name, entry.2) := by
  induction mirrored with
  | nil => rfl
  | cons first _ ih =>
      obtain ⟨production, link⟩ := first
      rw [List.map_cons, List.map_cons, ih, written, production.name, link.target, link.title,
        text_of_text_or_null, text_of_text_or_null, text_of_text_or_null]

/-- Where the first entry of a name gives a link, it is the first link given. -/
theorem first_given_of_entry {items : List Json} {name : Text} {link : Link}
    (gives : firstEntryLink items name = some link) : firstGivenLink items name = some link := by
  induction items with
  | nil => simp [firstEntryLink] at gives
  | cons item rest ih =>
      rw [firstEntryLink, List.map_cons] at gives
      rw [firstGivenLink, List.map_cons]
      by_cases named : (written item).1 = some name
      · rw [List.find?_cons_of_pos (by simpa using named), Option.map_some,
          Option.filter_eq_some_iff, Option.some.injEq] at gives
        obtain ⟨rfl, given⟩ := gives
        rw [List.find?_cons_of_pos (by simpa using ⟨named, given⟩), Option.map_some]
      · rw [List.find?_cons_of_neg (by simpa using named)] at gives
        rw [List.find?_cons_of_neg (by simp [named])]
        exact ih gives

end Interchange

namespace Grammar
open Interchange

/-- What a grammar offers for a name is the first link that an entry of its document gives for it. -/
theorem offered_of_read {document : Json} {grammar : Grammar}
    (read : readGrammar document = .ok grammar) :
    ∃ items, document.get "productions" = .list items ∧
      ∀ name, grammar.offeredLink? name = firstGivenLink items name := by
  have linked := linked_of_read read
  obtain ⟨_, items, entries, -, listed, mirrored, rfl⟩ := read_grammar_iff.mp read
  refine ⟨items, listed, fun name => ?_⟩
  have seeded : (entries.foldl seedLink .empty).get? name = firstGivenLink items name := by
    have none : LinkTable.empty.get? name = none := rfl
    rw [seeds_get, none, Option.none_or, firstGivenLink, written_mirrored mirrored, List.find?_map,
      Option.map_map]
    rfl
  rw [offeredLink?, linkFor?, seeded]
  cases given : firstGivenLink items name with
  | none => simp
  | some link => simp [(linked name link (seeded.trans given)).1]

/-- Whatever links a grammar has, enrichment from a document that is read gives each of its names the first
link that an entry of the document gives for the name, and no link if none does. That is the link of the
first entry of the name, unless that entry gives none and a later one does. -/
theorem links_carried_from_document {document : Json} {authority copy : Grammar}
    (read : readGrammar document = .ok copy) :
    ∃ items, document.get "productions" = .list items ∧
      ∀ name, name ∈ authority.names →
        (authority.enrich copy).linkFor? name = firstGivenLink items name ∧
        ((authority.enrich copy).linkFor? name = firstEntryLink items name ↔
          firstEntryLink items name ≠ none ∨ firstGivenLink items name = none) := by
  obtain ⟨items, listed, offers⟩ := offered_of_read read
  refine ⟨items, listed, fun name known => ?_⟩
  have carried : (authority.enrich copy).linkFor? name = firstGivenLink items name := by
    rw [linkFor?, enrich_get, if_pos known, offers]
  refine ⟨carried, ?_⟩
  rw [carried]
  cases entry : firstEntryLink items name with
  | none => simp
  | some link => simp [first_given_of_entry entry]

theorem links_carried_from_document_repeated :
    let entry (members : List (Text × Json)) : Json := .object members
    let items : List Json := [entry [("name", .str "A"), ("link", .str "#a")],
      entry [("name", .str "B"), ("link", .str "")], entry [("link", .str "#none")],
      entry [("name", .str "A"), ("link_name", .str "again")], entry [("name", .str "B"), ("link", .null)]]
    let document : Json := .object [("productions", .list items)]
    let rule (name : Option Text) : Production := ⟨name, none, none, false⟩
    let copy : Grammar := ⟨[rule "A", rule "B", rule none, rule "A", rule "B"], none,
      LinkTable.empty.insert "A" ⟨some "#a", none⟩⟩
    let authority : Grammar := ⟨[rule "B", rule "A", rule "A"], none,
      LinkTable.empty.insert "B" ⟨some "#old", none⟩⟩
    readGrammar document = .ok copy ∧ ("A" : Text) ∈ authority.names ∧ ("B" : Text) ∈ authority.names ∧
      (authority.enrich copy).linkFor? "A" = firstEntryLink items "A" ∧
      firstEntryLink items "A" = some ⟨some "#a", none⟩ ∧
      (authority.enrich copy).linkFor? "B" = firstEntryLink items "B" ∧
      firstEntryLink items "B" = none := by
  intro entry items document rule copy authority
  have read : readGrammar document = .ok copy := rfl
  have knownA : ("A" : Text) ∈ authority.names := by decide
  have knownB : ("B" : Text) ∈ authority.names := by decide
  obtain ⟨_, listed, each⟩ := @links_carried_from_document document authority copy read
  cases listed
  exact ⟨read, knownA, knownB, (each "A" knownA).2.mpr (.inl nofun), rfl,
    (each "B" knownB).2.mpr (.inr rfl), rfl⟩

/-- An entry without a link in front of one with a link: the later link is carried over. -/
theorem later_link_carried :
    let first : Json := .object [("productions", .list [.object [("name", .str "A")]])]
    let items : List Json :=
      [.object [("name", .str "A")], .object [("name", .str "A"), ("link", .str "#a")]]
    let second : Json := .object [("productions", .list items)]
    ∃ authority copy, readGrammar first = .ok authority ∧ readGrammar second = .ok copy ∧
      ("A" : Text) ∈ authority.names ∧ firstEntryLink items "A" = none ∧
      (authority.enrich copy).linkFor? "A" = some ⟨some "#a", none⟩ :=
  ⟨_, _, rfl, rfl, by decide, rfl, rfl⟩

end Grammar

end GrammarPage
