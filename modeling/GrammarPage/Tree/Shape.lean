import GrammarPage.Json.Shown
import GrammarPage.Tree.Basic

/-!
Making a tree from loose parts: a kind, a payload and children that may be of any shape. The parts are
objected to in a fixed order, so one fault is named even when there are several.
-/

namespace GrammarPage

inductive ShapeFault where
  | unknownKind (kind : Json)
  | noText (which : Leaf) (payload : Json)
  | leafWithChildren (which : Leaf)
  | textPayload (kind : Kind)
  | childCount (which : Repetition) (count : Nat)
  | noChildren (kind : Kind)
  | foreignChild (kind : Kind) (child : Json)

def ShapeFault.message : ShapeFault → Text
  | .unknownKind kind => "Unknown EBNF kind: " ++ kind.shown
  | .noText which payload => which.name ++ " node needs a string payload, got " ++ payload.shown
  | .leafWithChildren which => which.name ++ " node cannot have children"
  | .textPayload kind => kind.name ++ " node cannot have a text payload"
  | .childCount which count =>
      which.name ++ " node needs exactly one child, got " ++ toString count
  | .noChildren kind => kind.name ++ " node needs at least one child"
  | .foreignChild kind child => kind.name ++ " child is not an EBNF node: " ++ child.shown

/-- What stands in a child's place: a tree, or some other value. -/
inductive Child where
  | tree (tree : Tree)
  | foreign (value : Json)

namespace Tree

/-- The trees in the children's places, if no other value stands among them. -/
def adopt (kind : Kind) : List Child → Except ShapeFault (List Tree)
  | [] => .ok []
  | .tree tree :: rest => (adopt kind rest).map (tree :: ·)
  | .foreign value :: _ => .error (.foreignChild kind value)

def leafOfParts (which : Leaf) (payload : Json) (children : List Child) (trivia : Trivia) :
    Except ShapeFault Tree :=
  match payload with
  | .str text =>
      if children.isEmpty then .ok (.leaf which text trivia) else .error (.leafWithChildren which)
  | other => .error (.noText which other)

def repeatedOfParts (which : Repetition) (trivia : Trivia) : List Child → Except ShapeFault Tree
  | [.tree child] => .ok (.repeated which child trivia)
  | [.foreign value] => .error (.foreignChild (.repetition which) value)
  | children => .error (.childCount which children.length)

/-- A choice or a sequence, as `make` builds it. -/
def groupOfParts (kind : Kind) (make : Tree → List Tree → Tree) (children : List Child) :
    Except ShapeFault Tree :=
  match adopt kind children with
  | .ok (first :: rest) => .ok (make first rest)
  | .ok [] => .error (.noChildren kind)
  | .error fault => .error fault

def ofParts (kind : Kind) (payload : Json) (children : List Child) (trivia : Trivia) :
    Except ShapeFault Tree :=
  match kind with
  | .leaf which => leafOfParts which payload children trivia
  | .repetition which =>
      if payload.isNull then repeatedOfParts which trivia children else .error (.textPayload kind)
  | .choice =>
      if payload.isNull then groupOfParts kind (.choice · · trivia) children
      else .error (.textPayload kind)
  | .sequence =>
      if payload.isNull then groupOfParts kind (.sequence · · trivia) children
      else .error (.textPayload kind)

end Tree

end GrammarPage
