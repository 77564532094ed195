import GrammarPage.Grammar.Basic
import GrammarPage.Interchange.Place

/-!
Reading a grammar from an interchange document. Members are looked at in a fixed order and the first
fault stops the reading; the children of a node are read before its own members are.
-/

namespace GrammarPage.Interchange

/-- A member that is absent, null or a text. -/
def optionalText (place : Place) (document : Json) (name : Text) :
    Except LoadError (Option Text) :=
  match document.get name with
  | .null => .ok none
  | .str text => .ok (some text)
  | _ => .error ⟨.field place name, .expectedText⟩

def requireObject (place : Place) : Json → Except LoadError Unit
  | .object _ => .ok ()
  | _ => .error ⟨place, .expectedObject⟩

def readKind (place : Place) (document : Json) : Except LoadError Kind :=
  match document.get "kind" with
  | .str name => match Kind.ofName? name with
    | some kind => .ok kind
    | none => .error ⟨place, .unknownKind (.str name)⟩
  | other => .error ⟨place, .unknownKind other⟩

def readTrivia (place : Place) (document : Json) : Except LoadError Trivia := do
  let whitespace ← optionalText place document "whitespace"
  let comment ← optionalText place document "comment"
  return ⟨whitespace.getD "", comment, (document.get "newline").holds⟩

/-- Puts a node together once its children are read. -/
def readNode (place : Place) (document : Json) (kind : Kind) (children : List Tree) :
    Except LoadError Tree := do
  let text ← optionalText place document "text"
  let trivia ← readTrivia place document
  match Tree.ofParts kind (text.elim .null .str) (children.map .tree) trivia with
  | .ok tree => return tree
  | .error fault => throw ⟨place, .shape fault⟩

/-- The documents of a node's children; a node without any may leave the member out. -/
def childDocuments (place : Place) (members : List (Text × Json)) :
    Except LoadError (List Json) :=
  match Json.member? "children" members with
  | none => .ok []
  | some (.list items) => .ok items
  | some _ => .error ⟨place, .expectedChildren⟩

theorem child_documents_smaller {place : Place} {members : List (Text × Json)}
    {items : List Json} (found : childDocuments place members = .ok items) :
    sizeOf items < sizeOf (Json.object members) := by
  unfold childDocuments at found
  split at found
  · cases found
    cases members <;> simp only [List.nil.sizeOf_spec, List.cons.sizeOf_spec,
      Json.object.sizeOf_spec] <;> omega
  · rename_i present
    cases found
    have := Json.member_smaller present
    simp only [Json.list.sizeOf_spec, Json.object.sizeOf_spec] at this ⊢
    omega
  · cases found

/-- The children's documents together with the bound on their size that reading relies on. -/
def childItems (place : Place) (members : List (Text × Json)) :
    Except LoadError { items : List Json // sizeOf items < sizeOf (Json.object members) } :=
  match found : childDocuments place members with
  | .ok items => .ok ⟨items, child_documents_smaller found⟩
  | .error error => .error error

theorem child_items_val (place : Place) (members : List (Text × Json)) :
    (childItems place members).map Subtype.val = childDocuments place members := by
  unfold childItems
  split <;> rename_i found <;> exact found.symm

mutual
def readTree (place : Place) : Json → Except LoadError Tree
  | .object members => do
      let kind ← readKind place (.object members)
      let items ← childItems place members
      let children ← readTrees place 0 items.val
      readNode place (.object members) kind children
  | _ => throw ⟨place, .expectedObject⟩
  termination_by document => sizeOf document
  decreasing_by exact items.property

def readTrees (place : Place) (index : Nat) : List Json → Except LoadError (List Tree)
  | [] => return []
  | item :: rest => do
      let tree ← readTree (.child place index) item
      let trees ← readTrees place (index + 1) rest
      return tree :: trees
  termination_by items => sizeOf items
end

theorem read_tree_object (place : Place) (members : List (Text × Json)) :
    readTree place (.object members) = (do
      let kind ← readKind place (.object members)
      let items ← childDocuments place members
      let children ← readTrees place 0 items
      readNode place (.object members) kind children) := by
  rw [readTree, ← child_items_val]
  cases readKind place (.object members) with
  | error _ => rfl
  | ok _ => cases childItems place members <;> rfl

def readBody (place : Place) (document : Json) : Except LoadError (Option Tree) :=
  match document.get "body" with
  | .null => return none
  | body => some <$> readTree (.field place "body") body

def readProduction (place : Place) (document : Json) : Except LoadError Production := do
  requireObject place document
  let name ← optionalText place document "name"
  let comment ← optionalText place document "comment"
  let body ← readBody place document
  return ⟨name, body, comment, (document.get "starts_on_new_line").holds⟩

def readLink (place : Place) (document : Json) : Except LoadError Link := do
  let target ← optionalText place document "link"
  let title ← optionalText place document "link_name"
  return ⟨target, title⟩

def readEntries (index : Nat) : List Json → Except LoadError (List (Production × Link))
  | [] => return []
  | entry :: rest => do
      let production ← readProduction (.production index) entry
      let link ← readLink (.production index) entry
      let entries ← readEntries (index + 1) rest
      return (production, link) :: entries

/-- Of the entries of one name, the first that gives a link sets it. -/
def seedLink (links : LinkTable) (entry : Production × Link) : LinkTable :=
  match entry.1.name with
  | some name =>
      if (links.get? name).isNone && entry.2.isGiven then links.insert name entry.2 else links
  | none => links

def readName (document : Json) : Option Text :=
  match document.get "name" with
  | .str name => some name
  | _ => none

def readGrammar (document : Json) : Except LoadError Grammar := do
  requireObject .root document
  match document.get "productions" with
  | .list items =>
      let entries ← readEntries 0 items
      return ⟨entries.map (·.1), readName document, entries.foldl seedLink .empty⟩
  | _ => throw ⟨.productions, .expectedList⟩

end GrammarPage.Interchange
