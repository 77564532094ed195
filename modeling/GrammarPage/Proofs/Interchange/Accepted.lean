import GrammarPage.Proofs.Interchange.Mirrored

/-!
The interchange format itself: which documents describe a grammar. Reading accepts exactly these and
refuses all others.
-/

namespace GrammarPage

namespace Interchange

/-- A member that is absent, null or a text. -/
def OptionalText (document : Json) (name : Text) : Prop :=
  document.get name = .null ∨ ∃ text, document.get name = .str text

theorem optional_text_form {document : Json} {name : Text} :
    OptionalText document name ↔ ∃ text, document.get name = textOrNull text := by
  constructor
  · rintro (absent | ⟨text, given⟩)
    · exact ⟨none, absent⟩
    · exact ⟨some text, given⟩
  · rintro ⟨_ | text, given⟩
    · exact .inl given
    · exact .inr ⟨text, given⟩

/-- The documents of nodes. -/
inductive NodeForm : Json → Prop where
  | node {members : List (Text × Json)} {kind : Kind} {text : Option Text} {items : List Json}
      (named : (Json.object members).get "kind" = .str kind.name)
      (payload : (Json.object members).get "text" = textOrNull text)
      (whitespace : OptionalText (.object members) "whitespace")
      (comment : OptionalText (.object members) "comment")
      (lists : Lists (.object members) items) (below : ∀ item ∈ items, NodeForm item)
      (shape : kind.Shape text items.length) : NodeForm (.object members)

/-- The documents of productions. -/
structure EntryForm (document : Json) : Prop where
  object : ∃ members, document = .object members
  name : OptionalText document "name"
  comment : OptionalText document "comment"
  target : OptionalText document "link"
  title : OptionalText document "link_name"
  body : document.get "body" = .null ∨ NodeForm (document.get "body")

/-- The documents of grammars. -/
def GrammarForm (document : Json) : Prop :=
  ∃ members items, document = .object members ∧ document.get "productions" = .list items ∧
    ∀ item ∈ items, EntryForm item

section Forms
variable {document : Json}

theorem mirrors_of_form (form : NodeForm document) : ∃ tree, Mirrors document tree := by
  induction form with
  | @node members _ _ _ named payload whitespace comment lists _ shape ih =>
      obtain ⟨space, spaced⟩ := optional_text_form.mp whitespace
      obtain ⟨remark, remarked⟩ := optional_text_form.mp comment
      obtain ⟨children, below⟩ := exists_related ih
      rw [below.length_eq] at shape
      obtain ⟨tree, -, rfl, rfl, rfl, around⟩ :=
        Tree.of_parts_shape ⟨space.getD "", remark, ((Json.object members).get "newline").holds⟩ shape
      have trivia : GivesTrivia (.object members) tree.trivia := by
        rw [around]
        exact ⟨⟨space, spaced, rfl⟩, remarked, rfl⟩
      exact ⟨tree, .node ⟨named, payload, trivia⟩ lists below⟩

theorem form_of_mirrors {tree : Tree} (mirrors : Mirrors document tree) : NodeForm document := by
  induction tree using Tree.induct_children generalizing document with
  | node tree ih =>
      obtain ⟨describes, lists, below⟩ := mirrors
      obtain ⟨space, spaced, -⟩ := describes.trivia.whitespace
      refine .node describes.kind describes.text (optional_text_form.mpr ⟨space, spaced⟩)
        (optional_text_form.mpr ⟨_, describes.trivia.comment⟩) lists (fun item member => ?_)
        (below.length_eq ▸ tree.shape_exact)
      obtain ⟨child, inChildren, holds⟩ := related_of_mem below member
      exact ih child inChildren holds

theorem node_form_iff : NodeForm document ↔ ∃ tree, Mirrors document tree :=
  ⟨mirrors_of_form, fun ⟨_, mirrors⟩ => form_of_mirrors mirrors⟩

theorem body_form_iff :
    (document.get "body" = .null ∨ NodeForm (document.get "body")) ↔ ∃ body, GivesBody document body := by
  rw [node_form_iff]
  constructor
  · rintro (absent | ⟨tree, mirrors⟩)
    · exact ⟨none, absent⟩
    · exact ⟨some tree, mirrors⟩
  · rintro ⟨_ | tree, given⟩
    · exact .inl given
    · exact .inr ⟨tree, given⟩

theorem entry_form_iff :
    EntryForm document ↔
      ∃ entry : Production × Link, MirrorsProduction document entry.1 ∧ MirrorsLink document entry.2 := by
  constructor
  · rintro ⟨object, name, comment, target, title, body⟩
    obtain ⟨name, named⟩ := optional_text_form.mp name
    obtain ⟨comment, remarked⟩ := optional_text_form.mp comment
    obtain ⟨target, aims⟩ := optional_text_form.mp target
    obtain ⟨title, shows⟩ := optional_text_form.mp title
    obtain ⟨body, given⟩ := body_form_iff.mp body
    exact ⟨(⟨name, body, comment, _⟩, ⟨target, title⟩), ⟨object, named, remarked, given, rfl⟩, aims, shows⟩
  · rintro ⟨entry, ⟨object, named, remarked, given, -⟩, aims, shows⟩
    exact ⟨object, optional_text_form.mpr ⟨_, named⟩, optional_text_form.mpr ⟨_, remarked⟩,
      optional_text_form.mpr ⟨_, aims⟩, optional_text_form.mpr ⟨_, shows⟩, body_form_iff.mpr ⟨_, given⟩⟩

theorem grammar_form_iff : GrammarForm document ↔ ∃ grammar, readGrammar document = .ok grammar := by
  simp only [read_grammar_iff]
  constructor
  · rintro ⟨members, items, object, listed, each⟩
    obtain ⟨entries, mirrored⟩ := exists_related fun item member => entry_form_iff.mp (each item member)
    exact ⟨_, members, items, entries, object, listed, mirrored, rfl⟩
  · rintro ⟨_, members, items, entries, object, listed, mirrored, -⟩
    refine ⟨members, items, object, listed, fun item member => ?_⟩
    obtain ⟨entry, -, holds⟩ := related_of_mem mirrored member
    exact entry_form_iff.mpr ⟨entry, holds⟩

/-- A document is read as a grammar exactly if it has the form of one, and refused otherwise. Every node
that is read has the shape of its kind, and the productions say entry for entry and node for node what the
document says. -/
theorem read_grammar_exact (document : Json) :
    ((∃ grammar, readGrammar document = .ok grammar) ↔ GrammarForm document) ∧
    ((∃ error, readGrammar document = .error error) ↔ ¬ GrammarForm document) ∧
    ∀ grammar, readGrammar document = .ok grammar →
      (∀ production ∈ grammar.productions, ∀ body ∈ production.body, ∀ node ∈ body.walk,
        node.kind.Shape node.text? node.children.length) ∧
      ∃ items, document.get "productions" = .list items ∧
        List.Forall₂ MirrorsProduction items grammar.productions := by
  refine ⟨grammar_form_iff.symm, ?_, fun grammar read => ⟨fun _ _ _ _ node _ => node.shape_exact, ?_⟩⟩
  · rw [grammar_form_iff]
    cases readGrammar document <;> simp
  · obtain ⟨_, items, entries, -, listed, mirrored, rfl⟩ := read_grammar_iff.mp read
    refine ⟨items, listed, ?_⟩
    rw [List.forall₂_map_right_iff]
    exact mirrored.imp fun _ _ both => both.1

theorem read_grammar_exact_nested :
    let reference : Json := .object [("kind", .str "reference"), ("text", .str "B"), ("comment", .null)]
    let body : Json := .object [("kind", .str "choice"), ("whitespace", .str " "), ("text", .null),
      ("children", .list [reference, .object [("kind", .str "zero_or_more"),
        ("children", .list [reference])]])]
    let document : Json :=
      .object [("productions", .list [.object [("name", .str "A"), ("body", body)], .object []])]
    let leaf : Tree := .leaf .reference "B" .bare
    let tree : Tree := .choice leaf [.repeated .zeroOrMore leaf .bare] ⟨" ", none, false⟩
    let grammar : Grammar := ⟨[⟨some "A", some tree, none, false⟩, ⟨none, none, none, false⟩], none, .empty⟩
    readGrammar document = .ok grammar ∧ GrammarForm document ∧
      ∃ items, document.get "productions" = .list items ∧
        List.Forall₂ MirrorsProduction items grammar.productions := by
  intro reference body document leaf tree grammar
  have entries : readEntries 0 [.object [("name", .str "A"), ("body", body)], .object []] =
      .ok [(⟨some "A", some tree, none, false⟩, ⟨none, none⟩), (⟨none, none, none, false⟩, ⟨none, none⟩)] := by
    have name : Kind.ofName? "reference" = some (.leaf .reference) := Kind.of_name_name (.leaf .reference)
    have choice : Kind.ofName? "choice" = some .choice := Kind.of_name_name .choice
    have repetition : Kind.ofName? "zero_or_more" = some (.repetition .zeroOrMore) :=
      Kind.of_name_name (.repetition .zeroOrMore)
    simp only [body, reference]
    simp [readEntries, readProduction, readLink, readBody, read_tree_object, readTrees, readNode, readKind, name,
      choice, repetition, childDocuments, readTrivia, optionalText, requireObject, Json.get, Json.get?, Json.member?,
      Json.holds, Json.isNull, Tree.ofParts, Tree.leafOfParts, Tree.repeatedOfParts, Tree.groupOfParts, Tree.adopt,
      bind, Except.bind, pure, Except.pure]
    rfl
  have read : readGrammar document = .ok grammar :=
    read_grammar_iff.mpr ⟨_, _, _, rfl, rfl, read_entries_iff.mp entries, rfl⟩
  have exact := read_grammar_exact document
  exact ⟨read, exact.1.mp ⟨grammar, read⟩, (exact.2.2 grammar read).2⟩

end Forms

end Interchange

end GrammarPage
