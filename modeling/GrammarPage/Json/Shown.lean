import GrammarPage.Json.Basic
import GrammarPage.Number.Shortest
import GrammarPage.Text.Shown

/-!
A JSON value as a message shows it.
-/

namespace GrammarPage.Json

def shownBool (value : Bool) : List Char := (if value then "True" else "False").toList

mutual
def shownChars : Json → List Char
  | .null => "None".toList
  | .bool value => shownBool value
  | .int value => (toString value).toList
  | .real value => value.text
  | .str value => Text.shown value.toList
  | .list items => '[' :: shownItems items ++ [']']
  | .object members => '\x7b' :: shownMembers members ++ ['\x7d']

def shownItems : List Json → List Char
  | [] => []
  | [item] => shownChars item
  | item :: rest => shownChars item ++ ',' :: ' ' :: shownItems rest

def shownMembers : List (Text × Json) → List Char
  | [] => []
  | [(name, value)] => Text.shown name.toList ++ ':' :: ' ' :: shownChars value
  | (name, value) :: rest =>
      Text.shown name.toList ++ ':' :: ' ' :: shownChars value ++ ',' :: ' ' :: shownMembers rest
end

def shown (value : Json) : String := String.ofList value.shownChars

end GrammarPage.Json
