import GrammarPage.Proofs.Interchange.Mirrored

/-!
Where a document is refused. The path of an error leads from the root of the document to what is wrong
there, and whatever stands before a step of the path loads: reading stops at the first fault it meets.
-/

namespace GrammarPage

theorem Json.member_of_get {document : Json} {name : Text} (given : document.get name ≠ .null) :
    document.get? name = some (document.get name) := by
  cases found : document.get? name with
  | none => exact absurd (by rw [get, found]; rfl) given
  | some value => rw [get, found, Option.getD_some]

namespace Interchange

/-- The document of a node that is read, wherever it stands. -/
def NodeLoads (document : Json) : Prop := ∃ tree, ∀ place, readTree place document = .ok tree

/-- The entry of a production that is read with its link, wherever it stands. -/
def EntryLoads (document : Json) : Prop :=
  ∃ production link, ∀ place,
    readProduction place document = .ok production ∧ readLink place document = .ok link

theorem node_loads_of_read {place : Place} {document : Json} {tree : Tree}
    (read : readTree place document = .ok tree) : NodeLoads document :=
  ⟨tree, fun _ => read_mirrors.mpr (read_mirrors.mp read)⟩

theorem entry_loads_of_read {place : Place} {document : Json} {production : Production} {link : Link}
    (first : readProduction place document = .ok production) (second : readLink place document = .ok link) :
    EntryLoads document :=
  ⟨production, link, fun _ => ⟨read_production_iff.mpr (read_production_iff.mp first),
    read_link_iff.mpr (read_link_iff.mp second)⟩⟩

/-- The entry at an index of the productions; all entries before it load. -/
def EntryAt (document : Json) (index : Nat) (entry : Json) : Prop :=
  ∃ items, document.get "productions" = .list items ∧ items[index]? = some entry ∧
    ∀ earlier ∈ items.take index, EntryLoads earlier

/-- The node that a path leads to through the body of an entry and then through children; at each step all
that stands before loads. -/
inductive NodeAt (document : Json) : Text → Json → Prop where
  | body {index : Nat} {entry node : Json} (behind : EntryAt document index entry)
      (given : entry.get? "body" = some node) :
      NodeAt document ("productions[" ++ toString index ++ "]" ++ ".body") node
  | child {path : Text} {node item : Json} {items : List Json} {index : Nat}
      (parent : NodeAt document path node) (listed : node.get? "children" = some (.list items))
      (found : items[index]? = some item) (before : ∀ earlier ∈ items.take index, NodeLoads earlier) :
      NodeAt document (path ++ ".children[" ++ toString index ++ "]") item

/-- There is such a member, and it is neither null nor a text. -/
def TextFault (document : Json) (name : Text) : Prop :=
  ∃ value, document.get? name = some value ∧ value ≠ .null ∧ ∀ text, value ≠ .str text

/-- What may be wrong with the document of a node itself. -/
inductive NodeFault (document : Json) : Prop where
  | noObject (other : ∀ members, document ≠ .object members)
  | unknownKind (unknown : ∀ kind : Kind, document.get "kind" ≠ .str kind.name)
  | noList {value : Json} (given : document.get? "children" = some value)
      (other : ∀ items, value ≠ .list items)
  | misshapen {kind : Kind} {text : Option Text} {items : List Json}
      (named : document.get "kind" = .str kind.name) (payload : document.get "text" = textOrNull text)
      (lists : Lists document items) (below : ∀ item ∈ items, NodeLoads item)
      (shape : ¬ kind.Shape text items.length)

section Errors
variable {place : Place} {document : Json} {error : LoadError}

theorem require_object_error (refused : requireObject place document = .error error) :
    (∀ members, document ≠ .object members) ∧ error.place = place := by
  refine ⟨fun members object => ?_, ?_⟩
  · rw [require_object_iff.mpr ⟨members, object⟩] at refused
    cases refused
  · unfold requireObject at refused
    split at refused
    · cases refused
    · cases refused
      rfl

theorem optional_text_error {name : Text} (refused : optionalText place document name = .error error) :
    TextFault document name ∧ error.place = .field place name := by
  rw [optionalText] at refused
  split at refused
  · cases refused
  · cases refused
  · case h_3 noNull noText =>
      cases refused
      exact ⟨⟨document.get name, Json.member_of_get noNull, noNull, noText⟩, rfl⟩

theorem read_kind_error (refused : readKind place document = .error error) :
    (∀ kind : Kind, document.get "kind" ≠ .str kind.name) ∧ error.place = place := by
  refine ⟨fun kind named => ?_, ?_⟩
  · rw [read_kind_iff.mpr named] at refused
    cases refused
  · rw [readKind] at refused
    split at refused
    · split at refused
      · cases refused
      · cases refused
        rfl
    · cases refused
      rfl

theorem child_documents_error {members : List (Text × Json)}
    (refused : childDocuments place members = .error error) :
    (∃ value, (Json.object members).get? "children" = some value ∧ ∀ items, value ≠ .list items) ∧
      error.place = place := by
  have member : (Json.object members).get? "children" = Json.member? "children" members := rfl
  rw [childDocuments] at refused
  split at refused
  · cases refused
  · cases refused
  · case h_3 value other found =>
      cases refused
      exact ⟨⟨value, member.trans found, other⟩, rfl⟩

/-- A field is refused for what it leads to, or the reading goes on. -/
theorem text_stage_error {name : Text} {result : Type} {next : Option Text → Except LoadError result}
    (refused : optionalText place document name >>= next = .error error) :
    (TextFault document name ∧ error.place = .field place name) ∨
      ∃ text, document.get name = textOrNull text ∧ next text = .error error := by
  rcases bind_error_iff.mp refused with here | ⟨text, read, later⟩
  · exact .inl (optional_text_error here)
  · exact .inr ⟨text, optional_text_iff.mp read, later⟩

/-- One of the fields is not a text. -/
def FieldRefused (names : List Text) (place : Place) (document : Json) (error : LoadError) : Prop :=
  ∃ name ∈ names, TextFault document name ∧ error.place = .field place name

theorem read_trivia_error (refused : readTrivia place document = .error error) :
    FieldRefused ["whitespace", "comment"] place document error := by
  rcases text_stage_error refused with fault | ⟨space, -, refused⟩
  · exact ⟨"whitespace", by simp, fault⟩
  rcases text_stage_error refused with fault | ⟨remark, -, made⟩
  · exact ⟨"comment", by simp, fault⟩
  · cases made

/-- The names of the fields of a node, and of the entry of a production, that hold texts. -/
def nodeFields : List Text := ["text", "whitespace", "comment"]

def entryFields : List Text := ["name", "comment", "link", "link_name"]

/-- A node is refused for a field, or for the shape of what is read. -/
theorem read_node_error {kind : Kind} {children : List Tree}
    (refused : readNode place document kind children = .error error) :
    FieldRefused nodeFields place document error ∨
      (∃ text, document.get "text" = textOrNull text ∧ ¬ kind.Shape text children.length) ∧
        error.place = place := by
  rcases text_stage_error refused with fault | ⟨text, payload, refused⟩
  · exact .inl ⟨"text", by simp [nodeFields], fault⟩
  rcases bind_error_iff.mp refused with around | ⟨trivia, -, refused⟩
  · obtain ⟨name, member, fault⟩ := read_trivia_error around
    exact .inl ⟨name, List.mem_cons_of_mem _ member, fault⟩
  right
  split at refused
  · cases refused
  · case h_2 fault put =>
      cases refused
      refine ⟨⟨text, payload, fun shape => ?_⟩, rfl⟩
      obtain ⟨tree, made, -⟩ := Tree.of_parts_shape trivia shape
      cases put.symm.trans made

/-- Children are refused for the first of them that does not load. -/
theorem read_trees_error {items : List Json} {start : Nat}
    (refused : readTrees place start items = .error error) :
    ∃ index item, items[index]? = some item ∧ (∀ earlier ∈ items.take index, NodeLoads earlier) ∧
      readTree (.child place (start + index)) item = .error error := by
  induction items generalizing start with
  | nil =>
      rw [readTrees] at refused
      cases refused
  | cons first rest ih =>
      rw [readTrees] at refused
      rcases bind_error_iff.mp refused with here | ⟨tree, read, refused⟩
      · exact ⟨0, first, rfl, by simp, here⟩
      rcases bind_error_iff.mp refused with later | ⟨trees, -, made⟩
      · obtain ⟨index, item, found, before, fault⟩ := ih later
        refine ⟨index + 1, item, found, ?_, ?_⟩
        · rw [List.take_succ_cons]
          exact List.forall_mem_cons.mpr ⟨node_loads_of_read read, before⟩
        · rwa [show start + (index + 1) = start + 1 + index by omega]
      · cases made

/-- Entries are refused for the first of them that does not load. -/
theorem read_entries_error {items : List Json} {start : Nat}
    (refused : readEntries start items = .error error) :
    ∃ index item, items[index]? = some item ∧ (∀ earlier ∈ items.take index, EntryLoads earlier) ∧
      (readProduction (.production (start + index)) item = .error error ∨
        readLink (.production (start + index)) item = .error error) := by
  induction items generalizing start with
  | nil => cases refused
  | cons first rest ih =>
      rcases bind_error_iff.mp refused with here | ⟨production, read, refused⟩
      · exact ⟨0, first, rfl, by simp, .inl here⟩
      rcases bind_error_iff.mp refused with here | ⟨link, linked, refused⟩
      · exact ⟨0, first, rfl, by simp, .inr here⟩
      rcases bind_error_iff.mp refused with later | ⟨entries, -, made⟩
      · obtain ⟨index, item, found, before, fault⟩ := ih later
        refine ⟨index + 1, item, found, ?_, ?_⟩
        · rw [List.take_succ_cons]
          exact List.forall_mem_cons.mpr ⟨entry_loads_of_read read linked, before⟩
        · rwa [show start + (index + 1) = start + 1 + index by omega]
      · cases made

/-- A node is refused for a fault of its own, for a field, or for the first child that does not load. -/
theorem read_node_refused (refused : readTree place document = .error error) :
    NodeFault document ∧ error.place = place ∨
      FieldRefused nodeFields place document error ∨
      ∃ items index item, document.get? "children" = some (.list items) ∧
        items[index]? = some item ∧ (∀ earlier ∈ items.take index, NodeLoads earlier) ∧
        readTree (.child place index) item = .error error := by
  by_cases object : ∃ members, document = .object members
  case neg =>
    have other : ∀ members, document ≠ .object members := not_exists.mp object
    rw [readTree] at refused
    · cases refused
      exact .inl ⟨.noObject other, rfl⟩
    · exact other
  obtain ⟨members, rfl⟩ := object
  rw [read_tree_object] at refused
  rcases bind_error_iff.mp refused with unread | ⟨kind, named, refused⟩
  · obtain ⟨unknown, here⟩ := read_kind_error unread
    exact .inl ⟨.unknownKind unknown, here⟩
  rcases bind_error_iff.mp refused with unlisted | ⟨items, listed, refused⟩
  · obtain ⟨⟨value, given, other⟩, here⟩ := child_documents_error unlisted
    exact .inl ⟨.noList given other, here⟩
  have lists := child_documents_iff.mp listed
  rcases bind_error_iff.mp refused with unread | ⟨children, read, refused⟩
  · obtain ⟨index, item, found, before, fault⟩ := read_trees_error unread
    rw [Nat.zero_add] at fault
    rcases lists with given | ⟨-, rfl⟩
    · exact .inr (.inr ⟨items, index, item, given, found, before, fault⟩)
    · cases found
  have below := read_all_mirrors.mp read
  rcases read_node_error refused with fault | ⟨⟨text, payload, shape⟩, here⟩
  · exact .inr (.inl fault)
  · have loads : ∀ item ∈ items, NodeLoads item := by
      intro item member
      obtain ⟨tree, -, mirrors⟩ := related_of_mem below member
      exact ⟨tree, fun _ => read_mirrors.mpr mirrors⟩
    rw [← below.length_eq] at shape
    exact .inl ⟨.misshapen (read_kind_iff.mp named) payload lists loads shape, here⟩

end Errors

theorem listed_smaller {document item : Json} {items : List Json}
    (listed : document.get? "children" = some (.list items)) (member : item ∈ items) :
    sizeOf item < sizeOf document := by
  cases document with
  | object members =>
      have read : childDocuments .root members = .ok items := child_documents_iff.mpr (.inl listed)
      have inside := List.sizeOf_lt_of_mem member
      have smaller := child_documents_smaller read
      omega
  | null | bool _ | int _ | real _ | str _ | list _ => cases listed

/-- The error of a node leads to a fault of the node or of a node below it. -/
def NodeRefused (document : Json) (error : LoadError) : Prop :=
  ∃ path node, NodeAt document path node ∧
    (NodeFault node ∧ error.place.path = path ∨
      ∃ name ∈ nodeFields, TextFault node name ∧ error.place.path = path ++ "." ++ name)

-- The step to a child is one more constructor of the path, so the node reached so far is kept along.
theorem read_tree_error {root document : Json} {place : Place} {error : LoadError}
    (reached : NodeAt root place.path document) (refused : readTree place document = .error error) :
    NodeRefused root error := by
  rcases read_node_refused refused with ⟨fault, here⟩ | ⟨name, field, fault, here⟩ | below
  · exact ⟨_, _, reached, .inl ⟨fault, by rw [here]⟩⟩
  · exact ⟨_, _, reached, .inr ⟨name, field, fault, by rw [here]; rfl⟩⟩
  · obtain ⟨items, index, item, listed, found, before, fault⟩ := below
    have smaller := listed_smaller listed (List.mem_of_getElem? found)
    have next : NodeAt root (place.child index).path item := .child reached listed found before
    exact read_tree_error next fault
termination_by sizeOf document

/-- The error of a production's entry leads to the entry or to one of its fields. -/
def EntryRefused (document : Json) (error : LoadError) : Prop :=
  ∃ index entry, EntryAt document index entry ∧
    ((∀ members, entry ≠ .object members) ∧ error.place.path = "productions[" ++ toString index ++ "]" ∨
      ∃ name ∈ entryFields, TextFault entry name ∧
        error.place.path = "productions[" ++ toString index ++ "]" ++ "." ++ name)

section Entries
variable {root entry : Json} {index : Nat} {error : LoadError} (reached : EntryAt root index entry)
include reached

theorem field_refused {name : Text} (field : name ∈ entryFields)
    (refused : TextFault entry name ∧ error.place = .field (.production index) name) :
    EntryRefused root error :=
  ⟨index, entry, reached, .inr ⟨name, field, refused.1, by rw [refused.2]; rfl⟩⟩

theorem read_body_error (refused : readBody (.production index) entry = .error error) :
    NodeRefused root error := by
  by_cases absent : entry.get "body" = .null
  · rw [read_body_absent absent] at refused
    cases refused
  · rw [read_body_given absent, map_error_iff] at refused
    have path : (Place.field (.production index) "body").path =
        "productions[" ++ toString index ++ "]" ++ ".body" := by
      rw [Place.path, Place.path, Text.append_assoc]
      rfl
    exact read_tree_error (path ▸ .body reached (Json.member_of_get absent)) refused

theorem read_production_error (refused : readProduction (.production index) entry = .error error) :
    EntryRefused root error ∨ NodeRefused root error := by
  rcases bind_error_iff.mp refused with other | ⟨_, -, refused⟩
  · obtain ⟨noObject, here⟩ := require_object_error other
    exact .inl ⟨index, entry, reached, .inl ⟨noObject, by rw [here]; rfl⟩⟩
  rcases text_stage_error refused with fault | ⟨name, -, refused⟩
  · exact .inl (field_refused reached (by decide) fault)
  rcases text_stage_error refused with fault | ⟨comment, -, refused⟩
  · exact .inl (field_refused reached (by decide) fault)
  rcases bind_error_iff.mp refused with below | ⟨body, -, made⟩
  · exact .inr (read_body_error reached below)
  · cases made

theorem read_link_error (refused : readLink (.production index) entry = .error error) :
    EntryRefused root error := by
  rcases text_stage_error refused with fault | ⟨target, -, refused⟩
  · exact field_refused reached (by decide) fault
  rcases text_stage_error refused with fault | ⟨title, -, made⟩
  · exact field_refused reached (by decide) fault
  · cases made

end Entries

/-- The error of a document that is refused leads to what is wrong: to the root if it is no object, to the
productions if they are no list, and otherwise to an entry, a node or a field behind nothing but what
loads. -/
theorem load_error_located {document : Json} {error : LoadError}
    (refused : readGrammar document = .error error) :
    (∀ members, document ≠ .object members) ∧ error.place.path = "<root>" ∨
    (∃ members, document = .object members) ∧ (∀ items, document.get "productions" ≠ .list items) ∧
      error.place.path = "productions" ∨
    EntryRefused document error ∨ NodeRefused document error := by
  rcases bind_error_iff.mp refused with other | ⟨_, object, refused⟩
  · obtain ⟨noObject, here⟩ := require_object_error other
    exact .inl ⟨noObject, by rw [here]; rfl⟩
  right
  split at refused
  · case h_1 items listed =>
      right
      rcases bind_error_iff.mp refused with unread | ⟨entries, -, made⟩
      · obtain ⟨index, entry, found, before, fault⟩ := read_entries_error unread
        have reached : EntryAt document index entry := ⟨items, listed, found, before⟩
        rw [Nat.zero_add] at fault
        rcases fault with production | link
        · exact read_production_error reached production
        · exact .inl (read_link_error reached link)
      · cases made
  · case h_2 other =>
      cases refused
      exact .inl ⟨require_object_iff.mp object, other, rfl⟩

-- Of three faults the one that is met first is told: the empty choice, before the text and the link.
theorem load_error_located_nested :
    let reference : Json := .object [("kind", .str "reference"), ("text", .str "B")]
    let empty : Json := .object [("kind", .str "choice"), ("children", .list [])]
    let body : Json := .object [("kind", .str "sequence"), ("text", .int 5),
      ("children", .list [reference, empty])]
    let document : Json := .object [("productions", .list [.object [("body", reference)],
      .object [("name", .str "A"), ("body", body), ("link", .int 7)]])]
    let error : LoadError :=
      ⟨.child (.field (.production 1) "body") 1, .shape (.noChildren .choice)⟩
    readGrammar document = .error error ∧
      error.message = "productions[1].body.children[1]: choice node needs at least one child" ∧
      ((∀ members, document ≠ .object members) ∧ error.place.path = "<root>" ∨
        (∃ members, document = .object members) ∧ (∀ items, document.get "productions" ≠ .list items) ∧
          error.place.path = "productions" ∨
        EntryRefused document error ∨ NodeRefused document error) := by
  intro reference empty body document error
  have refused : readGrammar document = .error error := by
    have leaf : Kind.ofName? "reference" = some (.leaf .reference) := Kind.of_name_name (.leaf .reference)
    have choice : Kind.ofName? "choice" = some .choice := Kind.of_name_name .choice
    have sequence : Kind.ofName? "sequence" = some .sequence := Kind.of_name_name .sequence
    simp only [document, body, empty, reference, error]
    simp [readGrammar, readEntries, readProduction, readBody, read_tree_object, readTrees, readNode, readKind, leaf,
      choice, sequence, childDocuments, readTrivia, optionalText, requireObject, Json.get, Json.get?, Json.member?,
      Json.holds, Json.isNull, Tree.ofParts, Tree.leafOfParts, Tree.groupOfParts, Tree.adopt, bind, Except.bind, pure,
      Except.pure]
    rfl
  exact ⟨refused, by decide +kernel, load_error_located refused⟩

end Interchange

end GrammarPage
