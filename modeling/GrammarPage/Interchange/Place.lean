import GrammarPage.Tree.Shape

/-!
Places in an interchange document, and what may be wrong at one.
-/

namespace GrammarPage.Interchange

inductive Place where
  | root
  | productions
  | production (index : Nat)
  | named (label : Text)
  | field (place : Place) (name : Text)
  | child (place : Place) (index : Nat)
  deriving DecidableEq, Repr

def Place.path : Place → Text
  | .root => "<root>"
  | .productions => "productions"
  | .production index => "productions[" ++ toString index ++ "]"
  | .named label => label
  | .field place name => place.path ++ "." ++ name
  | .child place index => place.path ++ ".children[" ++ toString index ++ "]"

inductive Fault where
  | expectedObject
  | expectedList
  | expectedText
  | expectedChildren
  | unknownKind (kind : Json)
  | shape (fault : ShapeFault)

def Fault.message : Fault → Text
  | .expectedObject => "expected an object"
  | .expectedList => "expected a list"
  | .expectedText => "expected a string"
  | .expectedChildren => "children must be a list"
  | .unknownKind kind => "unknown kind " ++ kind.shown
  | .shape fault => fault.message

structure LoadError where
  place : Place
  fault : Fault

def LoadError.message (error : LoadError) : Text := error.place.path ++ ": " ++ error.fault.message

end GrammarPage.Interchange
