import GrammarPage.Grammar.LinkTable
import GrammarPage.Tree.Canonical

/-!
Productions and grammars. A production without a body documents the grammar only. Names may repeat;
wherever one production is wanted for a name, it is the first.
-/

namespace GrammarPage

/-- An empty text counts as none where only a text that says something is of use. -/
def filled (text : Option Text) : Option Text := text.filter (· ≠ "")

/-- Whether a link says anything. -/
def Link.isGiven (link : Link) : Bool := (filled link.target).isSome || (filled link.title).isSome

structure Production where
  name : Option Text
  body : Option Tree
  comment : Option Text
  startsOnNewLine : Bool
  deriving DecidableEq, Repr

namespace Production

/-- A production without a name goes by None. -/
def label (production : Production) : Text := production.name.getD "None"

/-- The canonical line, empty for a production without a body. -/
def canonical (production : Production) : Text :=
  match production.body with
  | some body => production.label ++ ": " ++ body.canonical ++ ";"
  | none => ""

def references (production : Production) : List Text :=
  match production.body with
  | some body => body.references
  | none => []

end Production

structure Grammar where
  productions : List Production
  name : Option Text
  links : LinkTable
  deriving DecidableEq

/-- Keeps the first of equal names, in order. -/
def firstOccurrences : List Text → List Text
  | [] => []
  | name :: rest => name :: (firstOccurrences rest).filter (· ≠ name)

theorem mem_first_occurrences {name : Text} {names : List Text} :
    name ∈ firstOccurrences names ↔ name ∈ names := by
  induction names with
  | nil => simp [firstOccurrences]
  | cons first rest ih =>
      by_cases same : name = first <;> simp [firstOccurrences, same, ih]

theorem first_occurrences_nodup (names : List Text) : (firstOccurrences names).Nodup := by
  induction names with
  | nil => simp [firstOccurrences]
  | cons first rest ih =>
      simp only [firstOccurrences, List.nodup_cons]
      exact ⟨by simp, ih.sublist List.filter_sublist⟩

namespace Grammar

/-- The names of the productions, with repetitions. -/
def names (grammar : Grammar) : List Text := grammar.productions.filterMap (·.name)

/-- The names without repetitions, in the order of their first productions. -/
def defined (grammar : Grammar) : List Text := firstOccurrences grammar.names

def lookup? (grammar : Grammar) (name : Text) : Option Production :=
  grammar.productions.find? (·.name = some name)

def position? (grammar : Grammar) (name : Text) : Option Nat :=
  grammar.productions.findIdx? (·.name = some name)

def linkFor? (grammar : Grammar) (name : Text) : Option Link := grammar.links.get? name

/-- The texts of all references, with repetitions. -/
def references (grammar : Grammar) : List Text := grammar.productions.flatMap (·.references)

/-- The names referred to, each once, in the order of code points. -/
def referredNames (grammar : Grammar) : List Text :=
  (firstOccurrences grammar.references).mergeSort (fun left right => decide (left ≤ right))

end Grammar

end GrammarPage
