import GrammarPage.Json.Basic
import GrammarPage.Number.Shortest
import GrammarPage.Text.Hex

/-!
Writing a JSON text: one item or member a line, two spaces deeper for each list or object it stands
in, and ASCII alone. What is not printable ASCII is escaped, above U+FFFF as a surrogate pair.
-/

namespace GrammarPage.Json

def codeEscape (unit : Nat) : List Char := '\\' :: 'u' :: Text.hexDigits 4 unit

def escapedChar (c : Char) : List Char :=
  if c = '\x22' || c = '\\' then ['\\', c]
  else if c = '\n' then ['\\', 'n']
  else if c = '\r' then ['\\', 'r']
  else if c = '\t' then ['\\', 't']
  else if c = '\x08' then ['\\', 'b']
  else if c = '\x0C' then ['\\', 'f']
  else if 0x20 ≤ c.toNat && c.toNat ≤ 0x7E then [c]
  else if c.toNat ≤ 0xFFFF then codeEscape c.toNat
  else codeEscape (0xD800 + (c.toNat - 0x10000) / 0x400) ++
    codeEscape (0xDC00 + (c.toNat - 0x10000) % 0x400)

def escapedPoint : CodePoint → List Char
  | .char c => escapedChar c
  | .half offset => codeEscape (CodePoint.half offset).toNat

def quoted (text : Text) : List Char :=
  '\x22' :: text.toList.flatMap escapedPoint ++ ['\x22']

def realText : Binary64 → List Char
  | .nan => "NaN".toList
  | .infinite negative => (if negative then ['-'] else []) ++ "Infinity".toList
  | number => number.text

def lineBreak (depth : Nat) : List Char := '\n' :: List.replicate (2 * depth) ' '

mutual
def written (depth : Nat) : Json → List Char
  | .null => "null".toList
  | .bool value => (if value then "true" else "false").toList
  | .int value => (toString value).toList
  | .real value => realText value
  | .str value => quoted value
  | .list [] => "[]".toList
  | .list (item :: rest) =>
      '[' :: lineBreak (depth + 1) ++ written (depth + 1) item ++ writtenItems (depth + 1) rest
        ++ lineBreak depth ++ [']']
  | .object [] => ['\x7b', '\x7d']
  | .object ((name, value) :: rest) =>
      '\x7b' :: lineBreak (depth + 1) ++ quoted name ++ ':' :: ' ' :: written (depth + 1) value
        ++ writtenMembers (depth + 1) rest ++ lineBreak depth ++ ['\x7d']

def writtenItems (depth : Nat) : List Json → List Char
  | [] => []
  | item :: rest => ',' :: lineBreak depth ++ written depth item ++ writtenItems depth rest

def writtenMembers (depth : Nat) : List (Text × Json) → List Char
  | [] => []
  | (name, value) :: rest =>
      ',' :: lineBreak depth ++ quoted name ++ ':' :: ' ' :: written depth value
        ++ writtenMembers depth rest
end

/-- The text of a JSON file: the document and a final line feed. -/
def fileText (document : Json) : List Char := written 0 document ++ ['\n']

end GrammarPage.Json
