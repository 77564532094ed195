import Mathlib.Data.List.Forall2
import GrammarPage.Proofs.Interchange.ReadBack

/-!
What a document is read as. A document mirrors a tree if it says, node for node, what the tree holds; so
do the entries of productions. Reading gives a result exactly if the document mirrors it, so it invents
nothing and overlooks nothing.
-/

namespace GrammarPage

section Stages
variable {fault value result : Type} {stage : Except fault value} {next : value → Except fault result}

theorem bind_ok_iff {found : result} :
    stage >>= next = .ok found ↔ ∃ middle, stage = .ok middle ∧ next middle = .ok found := by
  cases stage <;> simp [bind, Except.bind]

theorem bind_error_iff {error : fault} :
    stage >>= next = .error error ↔
      stage = .error error ∨ ∃ middle, stage = .ok middle ∧ next middle = .error error := by
  cases stage <;> simp [bind, Except.bind]

theorem map_ok_iff {make : value → result} {found : result} :
    make <$> stage = .ok found ↔ ∃ middle, stage = .ok middle ∧ make middle = found := by
  cases stage <;> simp [Functor.map, Except.map]

theorem map_error_iff {make : value → result} {error : fault} :
    make <$> stage = .error error ↔ stage = .error error := by
  cases stage <;> simp [Functor.map, Except.map]

theorem map_error_ok_iff {other : Type} {name : fault → other} {found : value} :
    stage.mapError name = .ok found ↔ stage = .ok found := by
  cases stage <;> simp [Except.mapError]

theorem map_error_error_iff {other : Type} {name : fault → other} {error : other} :
    stage.mapError name = .error error ↔ ∃ cause, stage = .error cause ∧ name cause = error := by
  cases stage <;> simp [Except.mapError]

/-- Stages that may fail, each with the state that the one before leaves. -/
theorem run_bind {state : Type} (first : ExceptT fault (StateM state) value)
    (next : value → ExceptT fault (StateM state) result) (start : state) :
    (first >>= next).run.run start = match first.run.run start with
      | (.ok found, middle) => (next found).run.run middle
      | (.error error, middle) => (.error error, middle) := by
  rw [ExceptT.run_bind, StateT.run_bind]
  rcases first.run.run start with ⟨_ | _, middle⟩ <;> rfl

end Stages

section Rows
variable {left right : Type} {related : left → right → Prop}

theorem exists_related {items : List left} (each : ∀ item ∈ items, ∃ other, related item other) :
    ∃ others, List.Forall₂ related items others := by
  induction items with
  | nil => exact ⟨[], .nil⟩
  | cons item rest ih =>
      obtain ⟨other, first⟩ := each item List.mem_cons_self
      obtain ⟨others, later⟩ := ih fun item member => each item (List.mem_cons_of_mem _ member)
      exact ⟨other :: others, .cons first later⟩

theorem related_of_mem {items : List left} {others : List right}
    (rows : List.Forall₂ related items others) {item : left} (member : item ∈ items) :
    ∃ other ∈ others, related item other := by
  induction rows with
  | nil => simp at member
  | cons first _ ih =>
      rcases List.mem_cons.mp member with rfl | later
      · exact ⟨_, List.mem_cons_self, first⟩
      · obtain ⟨other, inOthers, holds⟩ := ih later
        exact ⟨other, List.mem_cons_of_mem _ inOthers, holds⟩

end Rows

namespace Kind

theorem of_name_iff {name : Text} {kind : Kind} : ofName? name = some kind ↔ name = kind.name := by
  constructor
  · intro found
    have named := List.find?_some found
    exact (of_decide_eq_true named).symm
  · rintro rfl
    exact of_name_name kind

/-- What a node of a kind holds: a leaf a text and no children, a repetition no text and one child, a
choice or a sequence no text and at least one child. -/
def Shape (kind : Kind) (text : Option Text) (children : Nat) : Prop :=
  match kind with
  | .leaf _ => text.isSome = true ∧ children = 0
  | .repetition _ => text = none ∧ children = 1
  | .choice | .sequence => text = none ∧ 0 < children

end Kind

namespace Tree

/-- Every node has the shape of its kind. -/
theorem shape_exact (tree : Tree) : tree.kind.Shape tree.text? tree.children.length := by
  cases tree <;> simp [kind, text?, children, Kind.Shape]

/-- A tree is its kind, its text, its children and its trivia. -/
theorem eq_of_parts {left right : Tree} (kinds : left.kind = right.kind) (texts : left.text? = right.text?)
    (below : left.children = right.children) (around : left.trivia = right.trivia) : left = right := by
  cases left <;> cases right <;> simp_all [kind, text?, children, trivia]

/-- Parts that have the shape of their kind are put together as they are. -/
theorem of_parts_shape {kind : Kind} {text : Option Text} {children : List Tree} (trivia : Trivia)
    (shape : kind.Shape text children.length) :
    ∃ tree, ofParts kind (textOrNull text) (children.map .tree) trivia = .ok tree ∧ tree.kind = kind ∧
      tree.text? = text ∧ tree.children = children ∧ tree.trivia = trivia := by
  cases kind with
  | leaf which =>
      obtain ⟨given, childless⟩ := shape
      obtain ⟨text, rfl⟩ := Option.isSome_iff_exists.mp given
      obtain rfl := List.eq_nil_of_length_eq_zero childless
      exact ⟨.leaf which text trivia, rfl, rfl, rfl, rfl, rfl⟩
  | repetition which =>
      obtain ⟨rfl, single⟩ := shape
      obtain ⟨child, rfl⟩ := List.length_eq_one_iff.mp single
      exact ⟨.repeated which child trivia, rfl, rfl, rfl, rfl, rfl⟩
  | choice =>
      obtain ⟨rfl, some⟩ := shape
      obtain ⟨first, rest, rfl⟩ := List.exists_cons_of_length_pos some
      exact ⟨.choice first rest trivia, group_of_trees .choice (.choice · · trivia) first rest,
        rfl, rfl, rfl, rfl⟩
  | sequence =>
      obtain ⟨rfl, some⟩ := shape
      obtain ⟨first, rest, rfl⟩ := List.exists_cons_of_length_pos some
      exact ⟨.sequence first rest trivia, group_of_trees .sequence (.sequence · · trivia) first rest,
        rfl, rfl, rfl, rfl⟩

theorem of_parts_misshapen {kind : Kind} {text : Option Text} {children : List Tree} (trivia : Trivia)
    (misshapen : ¬ kind.Shape text children.length) :
    ∃ fault, ofParts kind (textOrNull text) (children.map .tree) trivia = .error fault := by
  cases kind with
  | leaf which =>
      cases text with
      | none => exact ⟨_, rfl⟩
      | some text =>
          cases children with
          | nil => exact absurd ⟨rfl, rfl⟩ misshapen
          | cons first rest => exact ⟨_, rfl⟩
  | repetition which =>
      cases text with
      | some text => exact ⟨_, rfl⟩
      | none =>
          match children with
          | [] => exact ⟨_, rfl⟩
          | [only] => exact absurd ⟨rfl, rfl⟩ misshapen
          | first :: second :: rest => exact ⟨_, rfl⟩
  | choice | sequence =>
      cases text with
      | some text => exact ⟨_, rfl⟩
      | none =>
          cases children with
          | nil => exact ⟨_, rfl⟩
          | cons first rest => exact absurd ⟨rfl, Nat.succ_pos _⟩ misshapen

theorem of_parts_iff {kind : Kind} {text : Option Text} {children : List Tree} {trivia : Trivia}
    {tree : Tree} :
    ofParts kind (textOrNull text) (children.map .tree) trivia = .ok tree ↔
      tree.kind = kind ∧ tree.text? = text ∧ tree.children = children ∧ tree.trivia = trivia := by
  constructor
  · intro made
    by_cases shape : kind.Shape text children.length
    · obtain ⟨other, same, parts⟩ := of_parts_shape trivia shape
      obtain rfl : tree = other := Except.ok.inj (made.symm.trans same)
      exact parts
    · obtain ⟨fault, refused⟩ := of_parts_misshapen trivia shape
      rw [refused] at made
      cases made
  · rintro ⟨rfl, rfl, rfl, rfl⟩
    obtain ⟨other, made, kinds, texts, below, around⟩ := of_parts_shape tree.trivia tree.shape_exact
    obtain rfl : other = tree := eq_of_parts kinds texts below around
    exact made

end Tree

namespace Interchange

section Members
variable {place : Place} {document : Json} {name : Text}

theorem optional_text_iff {text : Option Text} :
    optionalText place document name = .ok text ↔ document.get name = textOrNull text := by
  constructor
  · intro read
    rw [optionalText] at read
    split at read
    · case h_1 absent => cases read; exact absent
    · case h_2 given => cases read; exact given
    · cases read
  · exact optional_text_exact place

theorem read_kind_iff {kind : Kind} :
    readKind place document = .ok kind ↔ document.get "kind" = .str kind.name := by
  constructor
  · intro read
    rw [readKind] at read
    split at read
    · case h_1 given =>
        split at read
        · case h_1 found =>
            cases read
            rw [given, Kind.of_name_iff.mp found]
        · cases read
    · cases read
  · intro named
    rw [readKind, named]
    simp only [Kind.of_name_name]

/-- The trivia that a node's document gives. -/
structure GivesTrivia (document : Json) (trivia : Trivia) : Prop where
  whitespace : ∃ space, document.get "whitespace" = textOrNull space ∧ trivia.whitespace = space.getD ""
  comment : document.get "comment" = textOrNull trivia.comment
  newline : trivia.newline = (document.get "newline").holds

theorem read_trivia_iff {trivia : Trivia} :
    readTrivia place document = .ok trivia ↔ GivesTrivia document trivia := by
  simp only [readTrivia, bind_ok_iff, optional_text_iff]
  constructor
  · rintro ⟨space, whitespace, comment, remark, made⟩
    cases made
    exact ⟨⟨space, whitespace, rfl⟩, remark, rfl⟩
  · rintro ⟨⟨space, whitespace, same⟩, remark, newline⟩
    refine ⟨space, whitespace, trivia.comment, remark, ?_⟩
    rw [← same, ← newline]
    rfl

/-- The documents of a node's children. A node without any may leave the member out. -/
def Lists (document : Json) (items : List Json) : Prop :=
  document.get? "children" = some (.list items) ∨ document.get? "children" = none ∧ items = []

theorem child_documents_iff {members : List (Text × Json)} {items : List Json} :
    childDocuments place members = .ok items ↔ Lists (.object members) items := by
  have member : (Json.object members).get? "children" = Json.member? "children" members := rfl
  rw [childDocuments, Lists, member]
  cases Json.member? "children" members with
  | none => simp [eq_comm]
  | some value => cases value <;> simp

end Members

section Nodes
variable {place : Place} {document : Json} {tree : Tree}

/-- What a node's document says of the node itself. -/
structure Describes (document : Json) (tree : Tree) : Prop where
  kind : document.get "kind" = .str tree.kind.name
  text : document.get "text" = textOrNull tree.text?
  trivia : GivesTrivia document tree.trivia

theorem read_node_iff {kind : Kind} {children : List Tree} :
    readNode place document kind children = .ok tree ↔
      tree.kind = kind ∧ tree.children = children ∧ document.get "text" = textOrNull tree.text? ∧
        GivesTrivia document tree.trivia := by
  simp only [readNode, bind_ok_iff, optional_text_iff, read_trivia_iff]
  constructor
  · rintro ⟨text, payload, trivia, given, made⟩
    split at made
    · case h_1 other put =>
        cases made
        obtain ⟨kinds, rfl, below, rfl⟩ := Tree.of_parts_iff.mp put
        exact ⟨kinds, below, payload, given⟩
    · cases made
  · rintro ⟨rfl, rfl, payload, given⟩
    have put : Tree.ofParts tree.kind (textOrNull tree.text?) (tree.children.map .tree) tree.trivia =
        .ok tree := Tree.of_parts_iff.mpr ⟨rfl, rfl, rfl, rfl⟩
    refine ⟨tree.text?, payload, tree.trivia, given, ?_⟩
    rw [textOrNull] at put
    rw [put]
    rfl

/-- A document is read as a tree if it describes the tree's node and its children are read as the tree's. -/
theorem read_tree_iff :
    readTree place document = .ok tree ↔
      ∃ members items, document = .object members ∧ Describes document tree ∧ Lists document items ∧
        readTrees place 0 items = .ok tree.children := by
  cases document with
  | object members =>
      simp only [read_tree_object, bind_ok_iff, read_kind_iff, child_documents_iff, read_node_iff]
      constructor
      · rintro ⟨kind, named, items, listed, children, read, rfl, rfl, payload, trivia⟩
        exact ⟨members, items, rfl, ⟨named, payload, trivia⟩, listed, read⟩
      · rintro ⟨_, items, -, ⟨named, payload, trivia⟩, listed, read⟩
        exact ⟨tree.kind, named, items, listed, tree.children, read, rfl, rfl, payload, trivia⟩
  | null | bool _ | int _ | real _ | str _ | list _ => simp [readTree, throw, throwThe, MonadExceptOf.throw]

/-- A document mirrors a tree node for node: it describes the tree's node, and the documents it lists mirror
the children in their order. -/
inductive Mirrors : Json → Tree → Prop where
  | node {members : List (Text × Json)} {items : List Json} {tree : Tree}
      (describes : Describes (.object members) tree) (lists : Lists (.object members) items)
      (below : List.Forall₂ Mirrors items tree.children) : Mirrors (.object members) tree

-- What is asked of each child is the induction hypothesis of the tree that holds the children.
theorem read_trees_iff {items : List Json} {trees : List Tree} {index : Nat}
    (each : ∀ tree ∈ trees, ∀ place item, readTree place item = .ok tree ↔ Mirrors item tree) :
    readTrees place index items = .ok trees ↔ List.Forall₂ Mirrors items trees := by
  induction items generalizing trees index with
  | nil => cases trees <;> simp [readTrees, pure, Except.pure]
  | cons item rest ih =>
      rw [readTrees]
      simp only [bind_ok_iff]
      constructor
      · rintro ⟨tree, first, later, others, made⟩
        cases made
        exact .cons ((each tree List.mem_cons_self _ item).mp first)
          ((ih fun other member => each other (List.mem_cons_of_mem _ member)).mp others)
      · intro mirrored
        cases mirrored with
        | cons first others =>
            exact ⟨_, (each _ List.mem_cons_self _ item).mpr first, _,
              (ih fun other member => each other (List.mem_cons_of_mem _ member)).mpr others, rfl⟩

/-- Reading succeeds exactly with the tree that the document mirrors, wherever in a document it stands. -/
theorem read_mirrors : readTree place document = .ok tree ↔ Mirrors document tree := by
  induction tree using Tree.induct_children generalizing place document with
  | node tree ih =>
      rw [read_tree_iff]
      constructor
      · rintro ⟨members, items, rfl, describes, lists, read⟩
        exact .node describes lists ((read_trees_iff fun child member _ _ => ih child member).mp read)
      · rintro ⟨describes, lists, below⟩
        exact ⟨_, _, rfl, describes, lists, (read_trees_iff fun child member _ _ => ih child member).mpr below⟩

theorem read_all_mirrors {items : List Json} {trees : List Tree} {index : Nat} :
    readTrees place index items = .ok trees ↔ List.Forall₂ Mirrors items trees :=
  read_trees_iff fun _ _ _ _ => read_mirrors

end Nodes

section Entries
variable {place : Place} {document : Json}

/-- A body is absent or null, or mirrors the tree. -/
def GivesBody (document : Json) : Option Tree → Prop
  | none => document.get "body" = .null
  | some body => Mirrors (document.get "body") body

theorem read_body_absent (absent : document.get "body" = .null) : readBody place document = .ok none := by
  rw [readBody, absent]
  rfl

theorem read_body_given (given : document.get "body" ≠ .null) :
    readBody place document = some <$> readTree (.field place "body") (document.get "body") := by
  rw [readBody]
  split
  · case h_1 absent => exact absurd absent given
  · rfl

theorem read_body_iff {body : Option Tree} :
    readBody place document = .ok body ↔ GivesBody document body := by
  by_cases absent : document.get "body" = .null
  · rw [read_body_absent absent]
    cases body with
    | none => simp [GivesBody, absent]
    | some body =>
        have never : ¬ Mirrors .null body := nofun
        simp [GivesBody, absent, never]
  · rw [read_body_given absent, map_ok_iff]
    cases body <;> simp [GivesBody, read_mirrors, absent]

/-- An entry says what the production holds. -/
structure MirrorsProduction (document : Json) (production : Production) : Prop where
  object : ∃ members, document = .object members
  name : document.get "name" = textOrNull production.name
  comment : document.get "comment" = textOrNull production.comment
  body : GivesBody document production.body
  startsOnNewLine : production.startsOnNewLine = (document.get "starts_on_new_line").holds

/-- An entry says what the link of its production holds. -/
structure MirrorsLink (document : Json) (link : Link) : Prop where
  target : document.get "link" = textOrNull link.target
  title : document.get "link_name" = textOrNull link.title

theorem require_object_iff :
    requireObject place document = .ok () ↔ ∃ members, document = .object members := by
  cases document <;> simp [requireObject]

theorem read_production_iff {production : Production} :
    readProduction place document = .ok production ↔ MirrorsProduction document production := by
  simp only [readProduction, bind_ok_iff, optional_text_iff, read_body_iff]
  constructor
  · rintro ⟨_, object, name, named, comment, remark, body, given, made⟩
    cases made
    exact ⟨require_object_iff.mp object, named, remark, given, rfl⟩
  · rintro ⟨object, named, remark, given, newLine⟩
    refine ⟨(), require_object_iff.mpr object, production.name, named, production.comment, remark,
      production.body, given, ?_⟩
    rw [← newLine]
    rfl

theorem read_link_iff {link : Link} : readLink place document = .ok link ↔ MirrorsLink document link := by
  simp only [readLink, bind_ok_iff, optional_text_iff]
  constructor
  · rintro ⟨target, aims, title, shows, made⟩
    cases made
    exact ⟨aims, shows⟩
  · rintro ⟨aims, shows⟩
    exact ⟨link.target, aims, link.title, shows, rfl⟩

theorem read_entries_iff {items : List Json} {entries : List (Production × Link)} {index : Nat} :
    readEntries index items = .ok entries ↔
      List.Forall₂ (fun item entry => MirrorsProduction item entry.1 ∧ MirrorsLink item entry.2)
        items entries := by
  induction items generalizing entries index with
  | nil => cases entries <;> simp [readEntries, pure, Except.pure]
  | cons item rest ih =>
      simp only [readEntries, bind_ok_iff, read_production_iff, read_link_iff, ih]
      constructor
      · rintro ⟨production, first, link, linked, others, later, made⟩
        cases made
        exact .cons ⟨first, linked⟩ later
      · intro mirrored
        cases mirrored with
        | cons first later => exact ⟨_, first.1, _, first.2, _, later, rfl⟩

/-- A document is read as a grammar if its entries mirror the productions; the first link that an entry
gives for a name is the link of the name. -/
theorem read_grammar_iff {grammar : Grammar} :
    readGrammar document = .ok grammar ↔
      ∃ members items entries, document = .object members ∧
        document.get "productions" = .list items ∧
        List.Forall₂ (fun item entry => MirrorsProduction item entry.1 ∧ MirrorsLink item entry.2)
          items entries ∧
        grammar = ⟨entries.map (·.1), readName document, entries.foldl seedLink .empty⟩ := by
  simp only [readGrammar, bind_ok_iff]
  constructor
  · rintro ⟨_, object, read⟩
    obtain ⟨members, rfl⟩ := require_object_iff.mp object
    split at read
    · case h_1 items listed =>
        obtain ⟨entries, mirrored, made⟩ := bind_ok_iff.mp read
        cases made
        exact ⟨members, items, entries, rfl, listed, read_entries_iff.mp mirrored, rfl⟩
    · cases read
  · rintro ⟨members, items, entries, rfl, listed, mirrored, rfl⟩
    refine ⟨(), rfl, ?_⟩
    rw [listed]
    exact bind_ok_iff.mpr ⟨entries, read_entries_iff.mpr mirrored, rfl⟩

end Entries

end Interchange

end GrammarPage
