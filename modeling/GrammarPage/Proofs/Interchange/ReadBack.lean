import GrammarPage.Interchange.Reader
import GrammarPage.Interchange.Writer
import GrammarPage.Proofs.Tree.Induction

/-!
Reading back what was written. A document leaves out what reading takes for granted, so a member that is
not there reads as what it was left out for. Every entry of a name repeats the link of the name, so the
first that gives one gives the link of the table.
-/

namespace GrammarPage

namespace Json

theorem member_append (name : Text) (left right : List (Text × Json)) :
    member? name (left ++ right) = (member? name left).or (member? name right) := by
  induction left with
  | nil => rfl
  | cons entry rest ih =>
      obtain ⟨key, value⟩ := entry
      by_cases here : key = name <;> simp [member?, here, ih]

theorem get_object (members : List (Text × Json)) (name : Text) :
    (object members).get name = (member? name members).getD .null := rfl

end Json

theorem member_optional (name other : Text) (text : Option Text) :
    Json.member? other (optionalMember name text) = if name = other then text.map .str else none := by
  cases text <;> simp [optionalMember, Json.member?]

theorem member_flag (name other : Text) (flag : Bool) :
    Json.member? other (flagMember name flag) =
      if name = other ∧ flag = true then some (.bool true) else none := by
  cases flag <;> simp [flagMember, Json.member?]

theorem text_or_null_exact (text : Option Text) : (text.map Json.str).getD .null = textOrNull text := by
  cases text <;> rfl

/-- The members that trivia may have. -/
def triviaNames : List Text := ["whitespace", "comment", "newline"]

theorem member_trivia_other {name : Text} (other : name ∉ triviaNames) (trivia : Trivia) :
    Json.member? name trivia.members = none := by
  simp only [triviaNames, List.mem_cons, List.not_mem_nil, or_false, not_or] at other
  obtain ⟨whitespace, comment, newline⟩ := other
  have space : Json.member? name
      (if trivia.whitespace = "" then [] else [("whitespace", .str trivia.whitespace)]) = none := by
    split <;> simp [Json.member?, Ne.symm whitespace]
  rw [Trivia.members, Json.member_append, Json.member_append, space, member_optional, member_flag]
  simp [Ne.symm comment, Ne.symm newline]

namespace Interchange

theorem optional_text_exact (place : Place) {document : Json} {name : Text} {text : Option Text}
    (found : document.get name = textOrNull text) : optionalText place document name = .ok text := by
  rw [optionalText, found]
  cases text <;> rfl

section Trivia
variable {front : List (Text × Json)} (apart : ∀ name ∈ triviaNames, Json.member? name front = none)
  (trivia : Trivia)
include apart

theorem get_comment : (Json.object (front ++ trivia.members)).get "comment" = textOrNull trivia.comment := by
  rw [Json.get_object, Json.member_append, apart "comment" (by decide), Option.none_or, Trivia.members,
    Json.member_append, Json.member_append, member_optional, member_flag, ← text_or_null_exact]
  split <;> simp [Json.member?]

theorem get_whitespace : (Json.object (front ++ trivia.members)).get "whitespace" =
    textOrNull (if trivia.whitespace = "" then none else some trivia.whitespace) := by
  rw [Json.get_object, Json.member_append, apart "whitespace" (by decide), Option.none_or, Trivia.members,
    Json.member_append, Json.member_append, member_optional, member_flag]
  by_cases given : trivia.whitespace = "" <;> simp [given, Json.member?, textOrNull]

theorem newline_holds :
    ((Json.object (front ++ trivia.members)).get "newline").holds = trivia.newline := by
  rw [Json.get_object, Json.member_append, apart "newline" (by decide), Option.none_or, Trivia.members,
    Json.member_append, Json.member_append, member_optional, member_flag]
  by_cases given : trivia.whitespace = "" <;> cases trivia.newline <;>
    simp [given, Json.member?, Json.holds]

/-- Trivia reads back from behind any members with names of their own. -/
theorem read_trivia_members (place : Place) :
    readTrivia place (.object (front ++ trivia.members)) = .ok trivia := by
  rw [readTrivia, optional_text_exact place (get_whitespace apart trivia),
    optional_text_exact place (get_comment apart trivia), newline_holds apart trivia]
  obtain ⟨whitespace, comment, newline⟩ := trivia
  by_cases given : whitespace = "" <;> simp [given, bind, Except.bind, pure, Except.pure]

end Trivia

section Node
variable (place : Place) (trivia : Trivia)

theorem read_kind_exact (kind : Kind) (rest : List (Text × Json)) :
    readKind place (.object (("kind", .str kind.name) :: rest)) = .ok kind := by
  have named : (Json.object (("kind", .str kind.name) :: rest)).get "kind" = .str kind.name := rfl
  rw [readKind, named]
  simp only [Kind.of_name_name]

theorem read_leaf (kind : Leaf) (text : Text) :
    readTree place (.object (("kind", .str kind.name) :: ("text", .str text) :: trivia.members)) =
      .ok (.leaf kind text trivia) := by
  let front : List (Text × Json) := [("kind", .str kind.name), ("text", .str text)]
  have childless : Json.member? "children" (front ++ trivia.members) = none := by
    rw [Json.member_append, member_trivia_other (by decide)]
    simp [front, Json.member?]
  have none : childDocuments place (front ++ trivia.members) = .ok [] := by
    rw [childDocuments, childless]
  have given : (Json.object (front ++ trivia.members)).get "text" = textOrNull (some text) := rfl
  have apart : ∀ name ∈ triviaNames, Json.member? name front = Option.none := by
    simp [front, triviaNames, Json.member?]
  have node : readNode place (.object (front ++ trivia.members)) (.leaf kind) [] =
      .ok (.leaf kind text trivia) := by
    rw [readNode, optional_text_exact place given, read_trivia_members apart trivia place]
    rfl
  have named := read_kind_exact place (.leaf kind) (("text", .str text) :: trivia.members)
  calc readTree place (.object (front ++ trivia.members))
      = (do let children ← readTrees place 0 []
            readNode place (.object (front ++ trivia.members)) (.leaf kind) children) := by
        rw [read_tree_object, none]
        exact congrArg (· >>= _) named
    _ = .ok (.leaf kind text trivia) := by
        rw [readTrees]
        exact node

/-- A node is read once its children are, and put together as it was taken apart. -/
theorem read_parent {kind : Kind} {documents : List Json} {children : List Tree} {tree : Tree}
    (read : readTrees place 0 documents = .ok children)
    (made : Tree.ofParts kind .null (children.map .tree) trivia = .ok tree) :
    readTree place (.object (("kind", .str kind.name) :: ("children", .list documents)
      :: trivia.members)) = .ok tree := by
  let front : List (Text × Json) := [("kind", .str kind.name), ("children", .list documents)]
  have given : childDocuments place (front ++ trivia.members) = .ok documents := rfl
  have textless : (Json.object (front ++ trivia.members)).get "text" = textOrNull none := by
    rw [Json.get_object, Json.member_append, member_trivia_other (by decide)]
    simp [front, Json.member?, textOrNull]
  have apart : ∀ name ∈ triviaNames, Json.member? name front = none := by
    simp [front, triviaNames, Json.member?]
  have named := read_kind_exact place kind (("children", .list documents) :: trivia.members)
  calc readTree place (.object (front ++ trivia.members))
      = (do let children ← readTrees place 0 documents
            readNode place (.object (front ++ trivia.members)) kind children) := by
        rw [read_tree_object, given]
        exact congrArg (· >>= _) named
    _ = readNode place (.object (front ++ trivia.members)) kind children := by
        rw [read]
        rfl
    _ = .ok tree := by
        rw [readNode, optional_text_exact place textless, read_trivia_members apart trivia place]
        simp only [bind, Except.bind, Option.elim_none, made]
        rfl

end Node

end Interchange

namespace Tree

theorem adopt_trees (kind : Kind) (trees : List Tree) : adopt kind (trees.map .tree) = .ok trees := by
  induction trees with
  | nil => rfl
  | cons tree rest ih => rw [List.map_cons, adopt, ih]; rfl

theorem group_of_trees (kind : Kind) (make : Tree → List Tree → Tree) (first : Tree) (rest : List Tree) :
    groupOfParts kind make ((first :: rest).map .tree) = .ok (make first rest) := by
  rw [groupOfParts, adopt_trees]

theorem documents_exact (trees : List Tree) : documents trees = trees.map document := by
  induction trees with
  | nil => rfl
  | cons tree rest ih => rw [documents, ih, List.map_cons]

end Tree

namespace Interchange

theorem read_trees_documents {trees : List Tree}
    (read : ∀ tree ∈ trees, ∀ place, readTree place tree.document = .ok tree) (place : Place) (index : Nat) :
    readTrees place index (trees.map Tree.document) = .ok trees := by
  induction trees generalizing index with
  | nil =>
      rw [List.map_nil, readTrees]
      rfl
  | cons tree rest ih =>
      have later := ih (fun other member => read other (List.mem_cons_of_mem _ member)) (index + 1)
      rw [List.map_cons, readTrees, read tree List.mem_cons_self, later]
      rfl

/-- A tree is what its document reads as, wherever in a document it stands. -/
theorem read_tree_document (tree : Tree) : ∀ place, readTree place tree.document = .ok tree := by
  induction tree with
  | leaf kind text trivia => exact fun place => read_leaf place trivia kind text
  | repeated repetition child trivia ih =>
      intro place
      have only : ∀ tree ∈ [child], ∀ place, readTree place tree.document = .ok tree := by
        simpa using ih
      exact @read_parent place trivia (.repetition repetition) _ _ _ (read_trees_documents only place 0) rfl
  | choice first rest trivia ihFirst ihRest =>
      intro place
      have all : ∀ tree ∈ first :: rest, ∀ place, readTree place tree.document = .ok tree := by
        simpa using ⟨ihFirst, ihRest⟩
      rw [Tree.document, Tree.documents_exact, ← List.map_cons]
      exact read_parent place trivia (read_trees_documents all place 0)
        (Tree.group_of_trees .choice (.choice · · trivia) first rest)
  | sequence first rest trivia ihFirst ihRest =>
      intro place
      have all : ∀ tree ∈ first :: rest, ∀ place, readTree place tree.document = .ok tree := by
        simpa using ⟨ihFirst, ihRest⟩
      rw [Tree.document, Tree.documents_exact, ← List.map_cons]
      exact read_parent place trivia (read_trees_documents all place 0)
        (Tree.group_of_trees .sequence (.sequence · · trivia) first rest)

end Interchange

theorem member_body (name : Text) (body : Option Tree) :
    Json.member? name (bodyMember body) = if "body" = name then body.map Tree.document else none := by
  cases body <;> simp [bodyMember, Json.member?]

theorem member_links (name : Text) (link : Option Link) :
    Json.member? name (linkMembers link) = link.bind fun link =>
      if "link" = name then some (textOrNull link.target)
      else if "link_name" = name then some (textOrNull link.title) else none := by
  cases link <;> simp [linkMembers, Json.member?]

namespace Production
variable (links : LinkTable) (production : Production)

/-- The link that is written with a production. -/
def offered : Option Link := production.name.bind links.get?

theorem get_document (name : Text) :
    (production.document links).get name =
      (((((if "name" = name then some (textOrNull production.name) else none).or
        (if "body" = name then production.body.map Tree.document else none)).or
        (if "comment" = name then production.comment.map .str else none)).or
        (if "starts_on_new_line" = name ∧ production.startsOnNewLine = true
          then some (.bool true) else none)).or
        ((production.offered links).bind fun link =>
          if "link" = name then some (textOrNull link.target)
          else if "link_name" = name then some (textOrNull link.title) else none)).getD .null := by
  have first : Json.member? name (("name", textOrNull production.name) :: bodyMember production.body) =
      (if "name" = name then some (textOrNull production.name) else none).or
        (if "body" = name then production.body.map Tree.document else none) := by
    rw [← member_body, ← List.singleton_append, Json.member_append, Json.member?]
    rfl
  rw [document, Json.get_object, Json.member_append, Json.member_append, Json.member_append, first,
    member_optional, member_flag, member_links, offered]

end Production

namespace Interchange
variable (links : LinkTable) (production : Production) (place : Place)

theorem read_body_document : readBody place (production.document links) = .ok production.body := by
  have given : (production.document links).get "body" =
      (production.body.map Tree.document).getD .null := by
    rw [production.get_document]
    cases production.offered links <;> simp
  rw [readBody, given]
  cases production.body with
  | none => rfl
  | some body =>
      have read := read_tree_document body (.field place "body")
      have object : ∃ members, body.document = .object members := by
        cases body <;> exact ⟨_, rfl⟩
      obtain ⟨members, shape⟩ := object
      rw [shape] at read
      rw [Option.map_some, Option.getD_some, shape]
      simp only [read]
      rfl

theorem read_production_document :
    readProduction place (production.document links) = .ok production := by
  have name : (production.document links).get "name" = textOrNull production.name := by
    rw [production.get_document]
    simp
  have comment : (production.document links).get "comment" = textOrNull production.comment := by
    rw [production.get_document]
    cases production.offered links <;> simp [text_or_null_exact]
  have newLine : ((production.document links).get "starts_on_new_line").holds =
      production.startsOnNewLine := by
    rw [production.get_document]
    cases production.startsOnNewLine <;> cases production.offered links <;> simp [Json.holds]
  have object : requireObject place (production.document links) = .ok () := rfl
  rw [readProduction, object, optional_text_exact place name, optional_text_exact place comment,
    read_body_document, newLine]
  rfl

/-- Both halves of a link are written, and none of them if there is no link. -/
theorem read_link_document : readLink place (production.document links) =
    .ok ((production.offered links).getD ⟨none, none⟩) := by
  have target : (production.document links).get "link" =
      textOrNull ((production.offered links).bind Link.target) := by
    rw [production.get_document]
    cases production.offered links <;> simp [textOrNull]
  have title : (production.document links).get "link_name" =
      textOrNull ((production.offered links).bind Link.title) := by
    rw [production.get_document]
    cases production.offered links <;> simp [textOrNull]
  rw [readLink, optional_text_exact place target, optional_text_exact place title]
  cases production.offered links <;> rfl

theorem read_entries_documents (productions : List Production) (index : Nat) :
    readEntries index (productions.map (Production.document links)) =
      .ok (productions.map fun production =>
        (production, (production.offered links).getD ⟨none, none⟩)) := by
  induction productions generalizing index with
  | nil => rfl
  | cons production rest ih =>
      rw [List.map_cons, readEntries, read_production_document, read_link_document, ih]
      rfl

/-- An entry leaves the links of other names, and gives its own name a link if it has one to give and the
name has none yet. -/
theorem seed_link_exact (table : LinkTable) (entry : Production × Link) (name : Text) :
    (seedLink table entry).get? name =
      (table.get? name).or
        (if entry.1.name = some name ∧ entry.2.isGiven = true then some entry.2 else none) := by
  cases named : entry.1.name with
  | none => simp [seedLink, named]
  | some own =>
      rw [seedLink]
      simp only [named, Option.some.injEq]
      by_cases same : own = name
      · subst same
        cases old : table.get? own with
        | some link => simp [old]
        | none => by_cases given : entry.2.isGiven = true <;> simp [old, given, table.get_insert]
      · rw [if_neg fun both : own = name ∧ _ => same both.1, Option.or_none]
        split
        · rw [table.get_insert, if_neg same]
        · rfl

/-- The first entry of a name that has a link to give gives it. -/
theorem seeds_get (entries : List (Production × Link)) (table : LinkTable) (name : Text) :
    (entries.foldl seedLink table).get? name =
      (table.get? name).or ((entries.find? fun entry =>
        entry.1.name = some name ∧ entry.2.isGiven = true).map (·.2)) := by
  induction entries generalizing table with
  | nil => simp
  | cons entry rest ih =>
      rw [List.foldl_cons, ih, seed_link_exact, Option.or_assoc]
      by_cases first : entry.1.name = some name ∧ entry.2.isGiven = true
      · rw [if_pos first, List.find?_cons_of_pos (by simpa using first), Option.some_or, Option.map_some]
      · rw [if_neg first, List.find?_cons_of_neg (by simpa using first), Option.none_or]

theorem seed_link_get (table : LinkTable) (name : Text) :
    (seedLink table (production, (production.offered links).getD ⟨none, none⟩)).get? name =
      (table.get? name).or
        (if production.name = some name then (links.get? name).filter Link.isGiven else none) := by
  rw [seed_link_exact]
  by_cases named : production.name = some name
  · have empty : Link.isGiven ⟨none, none⟩ = false := rfl
    rw [Production.offered, named, Option.bind_some]
    cases links.get? name with
    | none => simp [empty]
    | some link => by_cases given : link.isGiven = true <;> simp [given, Option.filter]
  · simp [named]

/-- The links that the entries of a document seed, behind those that are there already. -/
theorem seeded_links (productions : List Production) (table : LinkTable) (name : Text) :
    ((productions.map fun production => (production, (production.offered links).getD ⟨none, none⟩)).foldl
        seedLink table).get? name =
      (table.get? name).or
        (if name ∈ productions.filterMap (·.name) then (links.get? name).filter Link.isGiven else none) := by
  induction productions generalizing table with
  | nil => simp
  | cons production rest ih =>
      rw [List.map_cons, List.foldl_cons, ih, seed_link_get, Option.or_assoc]
      congr 1
      -- Whether the name comes first here or later, it is the same link that is given.
      by_cases here : production.name = some name
      · by_cases given : name ∈ rest.filterMap (·.name) <;> simp [here, given]
      · have later : name ∈ (production :: rest).filterMap (·.name) ↔ name ∈ rest.filterMap (·.name) := by
          cases named : production.name <;> simp_all [eq_comm]
        simp only [here, later, ↓reduceIte, Option.none_or]

end Interchange

namespace Grammar
open Interchange

/-- The links that a document of the grammar seeds. -/
def seeded (grammar : Grammar) : LinkTable :=
  (grammar.productions.map fun production =>
    (production, (production.offered grammar.links).getD ⟨none, none⟩)).foldl seedLink .empty

theorem seeded_get (grammar : Grammar) (name : Text) :
    grammar.seeded.get? name =
      if name ∈ grammar.names then (grammar.links.get? name).filter Link.isGiven else none := by
  rw [seeded, seeded_links]
  rfl

theorem read_grammar_document (grammar : Grammar) :
    readGrammar grammar.document = .ok ⟨grammar.productions, grammar.name, grammar.seeded⟩ := by
  have object : requireObject .root grammar.document = .ok () := rfl
  have items : grammar.document.get "productions" =
      .list (grammar.productions.map (Production.document grammar.links)) := rfl
  have name : readName grammar.document = grammar.name := by
    rw [readName, document, Json.get_object, ← List.singleton_append, Json.member_append, member_optional]
    cases grammar.name <;> rfl
  rw [readGrammar, object, items, name]
  simp only [read_entries_documents, bind, Except.bind, List.map_map, Function.comp_def, List.map_id']
  rfl

theorem is_given_iff (link : Link) :
    link.isGiven = true ↔ link.target.getD "" ≠ "" ∨ link.title.getD "" ≠ "" := by
  have text : ∀ text : Option Text, (filled text).isSome = true ↔ text.getD "" ≠ "" := by
    intro text
    cases text <;> simp [filled, Option.filter]
  rw [Link.isGiven, Bool.or_eq_true, text, text]

/-- Reading the document of a grammar succeeds and gives the grammar again, but for its links: those of
names that no production has are gone, and so are those that say nothing. -/
theorem read_back (grammar : Grammar) :
    ∃ reloaded, readGrammar grammar.document = .ok reloaded ∧
      reloaded.productions = grammar.productions ∧ reloaded.name = grammar.name ∧
      ∀ name link, reloaded.links.get? name = some link ↔
        grammar.links.get? name = some link ∧
          (∃ production ∈ grammar.productions, production.name = some name) ∧
          (link.target.getD "" ≠ "" ∨ link.title.getD "" ≠ "") := by
  refine ⟨_, read_grammar_document grammar, rfl, rfl, fun name link => ?_⟩
  have known : name ∈ grammar.names ↔ ∃ production ∈ grammar.productions, production.name = some name :=
    List.mem_filterMap
  rw [seeded_get, ← known, ← is_given_iff]
  by_cases named : name ∈ grammar.names
  · simp [named, Option.filter_eq_some_iff]
  · simp [named]

end Grammar

end GrammarPage
