import GrammarPage.Text.Basic

/-!
Paths in normal form: no single dots and no doubled slashes. Double dots stay, since what they lead to
depends on the folders there are. Two leading slashes are kept apart from one.
-/

namespace GrammarPage

structure Path where
  root : Text
  parts : List Text
  deriving DecidableEq, Repr

namespace Path

/-- The pieces between slashes, of which there is always at least one. -/
def pieces : List CodePoint → List (List CodePoint)
  | [] => [[]]
  | c :: rest =>
      if c = '/' then [] :: pieces rest
      else match pieces rest with
        | [] => [[c]]
        | piece :: more => (c :: piece) :: more

def steps (text : Text) : List Text := (pieces text.toList).map Text.ofList

def rootOf : List CodePoint → Text
  | '/' :: '/' :: '/' :: _ => "/"
  | '/' :: '/' :: _ => "//"
  | '/' :: _ => "/"
  | _ => ""

def ofText (text : Text) : Path :=
  ⟨rootOf text.toList, (steps text).filter fun step => step ≠ "" && step ≠ "."⟩

def text (path : Path) : Text :=
  if path.root = "" && path.parts = [] then "."
  else path.root ++ Text.intercalate "/" path.parts

/-- The path of the folder that a path lies in. -/
def parent (path : Path) : Path := { path with parts := path.parts.dropLast }

/-- The name before its last dot; a dot at either end of the name does not count. -/
def stemOf (name : List CodePoint) : List CodePoint :=
  let ending := name.reverse.takeWhile (· ≠ .char '.')
  let before := name.take (name.length - ending.length - 1)
  if ending = [] || ending.length = name.length || before = [] then name else before

/-- The last name on the way, empty if there is none. -/
def name (path : Path) : Text := path.parts.getLast?.getD ""

def stem (path : Path) : Text := Text.ofList (stemOf path.name.toList)

end Path

end GrammarPage
