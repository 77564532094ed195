import GrammarPage.Text.Basic

/-!
EBNF trees. A leaf holds a text; a repetition holds one tree; a choice and a sequence hold at least
one. The layout around a node, its trivia, belongs to every node and to no meaning.
-/

namespace GrammarPage

inductive Leaf where
  | terminal
  | extendedTerminal
  | reference
  deriving DecidableEq, Repr

inductive Repetition where
  | oneOrMore
  | zeroOrMore
  | zeroOrOne
  deriving DecidableEq, Repr

inductive Kind where
  | leaf (which : Leaf)
  | repetition (which : Repetition)
  | choice
  | sequence
  deriving DecidableEq, Repr

def Leaf.name : Leaf → Text
  | .terminal => "terminal"
  | .extendedTerminal => "extended_terminal"
  | .reference => "reference"

def Repetition.name : Repetition → Text
  | .oneOrMore => "one_or_more"
  | .zeroOrMore => "zero_or_more"
  | .zeroOrOne => "zero_or_one"

def Repetition.mark : Repetition → CodePoint
  | .oneOrMore => '+'
  | .zeroOrMore => '*'
  | .zeroOrOne => '?'

namespace Kind

def name : Kind → Text
  | .leaf which => which.name
  | .repetition which => which.name
  | .choice => "choice"
  | .sequence => "sequence"

def all : List Kind :=
  [.leaf .terminal, .leaf .extendedTerminal, .leaf .reference, .repetition .oneOrMore,
    .repetition .zeroOrMore, .repetition .zeroOrOne, .choice, .sequence]

def ofName? (name : Text) : Option Kind := all.find? (·.name = name)

theorem of_name_name (kind : Kind) : ofName? kind.name = some kind := by
  rcases kind with which | which | _ | _
  · cases which <;> simp [ofName?, all, name, Leaf.name]
  · cases which <;> simp [ofName?, all, name, Leaf.name, Repetition.name]
  · simp [ofName?, all, name, Leaf.name, Repetition.name]
  · simp [ofName?, all, name, Leaf.name, Repetition.name]

end Kind

structure Trivia where
  whitespace : Text
  comment : Option Text
  newline : Bool
  deriving DecidableEq, Repr

def Trivia.bare : Trivia := ⟨"", none, false⟩

inductive Tree where
  | leaf (kind : Leaf) (text : Text) (trivia : Trivia)
  | repeated (repetition : Repetition) (child : Tree) (trivia : Trivia)
  | choice (first : Tree) (rest : List Tree) (trivia : Trivia)
  | sequence (first : Tree) (rest : List Tree) (trivia : Trivia)
  deriving Repr

namespace Tree

def kind : Tree → Kind
  | .leaf kind _ _ => .leaf kind
  | .repeated repetition _ _ => .repetition repetition
  | .choice _ _ _ => .choice
  | .sequence _ _ _ => .sequence

def text? : Tree → Option Text
  | .leaf _ text _ => some text
  | _ => none

def children : Tree → List Tree
  | .leaf _ _ _ => []
  | .repeated _ child _ => [child]
  | .choice first rest _ | .sequence first rest _ => first :: rest

def trivia : Tree → Trivia
  | .leaf _ _ trivia | .repeated _ _ trivia | .choice _ _ trivia | .sequence _ _ trivia => trivia

def withTrivia (trivia : Trivia) : Tree → Tree
  | .leaf kind text _ => .leaf kind text trivia
  | .repeated repetition child _ => .repeated repetition child trivia
  | .choice first rest _ => .choice first rest trivia
  | .sequence first rest _ => .sequence first rest trivia

def isChoice : Tree → Bool
  | .choice _ _ _ => true
  | _ => false

/-- Trees that a repetition puts in parentheses. -/
def isGroup : Tree → Bool
  | .choice _ _ _ | .sequence _ _ _ => true
  | _ => false

mutual
/-- A tree and everything below it, each node before its children. -/
def walk : Tree → List Tree
  | .leaf kind text trivia => [.leaf kind text trivia]
  | .repeated repetition child trivia => .repeated repetition child trivia :: walk child
  | .choice first rest trivia => .choice first rest trivia :: walk first ++ walkAll rest
  | .sequence first rest trivia => .sequence first rest trivia :: walk first ++ walkAll rest

def walkAll : List Tree → List Tree
  | [] => []
  | tree :: rest => walk tree ++ walkAll rest
end

/-- The texts of the references, in the order of the walk. -/
def references (tree : Tree) : List Text :=
  tree.walk.filterMap fun
    | .leaf .reference text _ => some text
    | _ => none

mutual
def same : Tree → Tree → Bool
  | .leaf kind text trivia, .leaf kind' text' trivia' =>
      kind = kind' && text = text' && trivia = trivia'
  | .repeated repetition child trivia, .repeated repetition' child' trivia' =>
      repetition = repetition' && same child child' && trivia = trivia'
  | .choice first rest trivia, .choice first' rest' trivia' =>
      same first first' && sameAll rest rest' && trivia = trivia'
  | .sequence first rest trivia, .sequence first' rest' trivia' =>
      same first first' && sameAll rest rest' && trivia = trivia'
  | _, _ => false

def sameAll : List Tree → List Tree → Bool
  | [], [] => true
  | tree :: rest, tree' :: rest' => same tree tree' && sameAll rest rest'
  | _, _ => false
end

mutual
theorem same_iff : ∀ left right : Tree, same left right = true ↔ left = right
  | .leaf _ _ _, right => by cases right <;> simp [same, and_assoc]
  | .repeated _ child _, right => by
      cases right <;> simp [same, same_iff child, and_assoc]
  | .choice first rest _, right => by
      cases right <;> simp [same, same_iff first, same_all_iff rest, and_assoc]
  | .sequence first rest _, right => by
      cases right <;> simp [same, same_iff first, same_all_iff rest, and_assoc]

theorem same_all_iff : ∀ left right : List Tree, sameAll left right = true ↔ left = right
  | [], right => by cases right <;> simp [sameAll]
  | tree :: rest, right => by cases right <;> simp [sameAll, same_iff tree, same_all_iff rest]
end

instance : DecidableEq Tree := fun left right => decidable_of_iff _ (same_iff left right)

end Tree

end GrammarPage
