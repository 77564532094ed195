import GrammarPage.Grammar.Comparison

/-!
Structural warnings: repeated names first, then what each production lacks or refers to in vain, then
names that nothing refers to.
-/

namespace GrammarPage

inductive Warning where
  | repeated (name : Text) (count : Nat)
  | empty (index : Nat)
  | nameless (index : Nat)
  | undefined (label : Text) (reference : Text)
  | unreferenced (name : Text)
  deriving DecidableEq, Repr

def Warning.text : Warning → Text
  | .repeated name count =>
      "Production '" ++ name ++ "' defined " ++ toString count ++ " times (first wins)"
  | .empty index => "Production #" ++ toString index ++ " is empty"
  | .nameless index => "Production #" ++ toString index ++ " has a body but no name"
  | .undefined label reference =>
      "Production '" ++ label ++ "' references undefined '" ++ reference ++ "'"
  | .unreferenced name => "Production '" ++ name ++ "' is never referenced"

namespace Grammar

def repeatedWarnings (grammar : Grammar) : List Warning :=
  grammar.defined.filterMap fun name =>
    let count := grammar.names.count name
    if 1 < count then some (.repeated name count) else none

def undefinedWarnings (grammar : Grammar) (production : Production) : List Warning :=
  (production.references.filter fun name => !grammar.names.contains name).map
    (.undefined production.label)

/-- What is wrong with one production; one without a name is empty unless it has a comment or a body. -/
def productionWarnings (grammar : Grammar) (index : Nat) (production : Production) : List Warning :=
  match production.name, production.body with
  | none, none => if (filled production.comment).isSome then [] else [.empty index]
  | none, some _ => .nameless index :: grammar.undefinedWarnings production
  | some _, _ => grammar.undefinedWarnings production

def unreferencedWarnings (grammar : Grammar) (start : Text) : List Warning :=
  (grammar.defined.filter fun name => name ≠ start && !grammar.references.contains name).map
    .unreferenced

def warnings (grammar : Grammar) (start : Text) : List Warning :=
  grammar.repeatedWarnings
    ++ (grammar.productions.mapIdx grammar.productionWarnings).flatten
    ++ grammar.unreferencedWarnings start

end Grammar

end GrammarPage
