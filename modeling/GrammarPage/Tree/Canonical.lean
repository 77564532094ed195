import GrammarPage.Tree.Basic

/-!
The canonical line of a tree. Trivia takes no part in it. Alternatives keep their order; parentheses
stand around a group under a repetition and around a choice in a sequence, and nowhere else.
-/

namespace GrammarPage

-- A backslash and both quotes are written behind a backslash, so the first bare quote closes.
def quoteEscape (c : CodePoint) : List CodePoint :=
  if c = '\\' || c = '\x27' || c = '\x22' then ['\\', c] else [c]

def quotedTerminal (text : List CodePoint) : List CodePoint :=
  .char '\x27' :: text.flatMap quoteEscape ++ [.char '\x27']

def quoteTerminal (text : Text) : Text := Text.ofList (quotedTerminal text.toList)

def Leaf.canonical (text : List CodePoint) : Leaf → List CodePoint
  | .terminal => quotedTerminal text
  | .extendedTerminal | .reference => text

def parenthesized (inner : List CodePoint) : List CodePoint :=
  .char '(' :: .char ' ' :: inner ++ [.char ' ', .char ')']

namespace Tree

mutual
def canonicalChars : Tree → List CodePoint
  | .leaf kind text _ => kind.canonical text.toList
  | .repeated repetition child _ =>
      (if child.isGroup then parenthesized (canonicalChars child) else canonicalChars child)
        ++ [repetition.mark]
  | .choice first rest _ => canonicalChars first ++ canonicalAlternatives rest
  | .sequence first rest _ =>
      (if first.isChoice then parenthesized (canonicalChars first) else canonicalChars first)
        ++ canonicalElements rest

def canonicalAlternatives : List Tree → List CodePoint
  | [] => []
  | tree :: rest => .char ' ' :: .char '|' :: .char ' ' :: canonicalChars tree ++ canonicalAlternatives rest

def canonicalElements : List Tree → List CodePoint
  | [] => []
  | tree :: rest =>
      .char ' ' :: (if tree.isChoice then parenthesized (canonicalChars tree) else canonicalChars tree)
        ++ canonicalElements rest
end

def canonical (tree : Tree) : Text := Text.ofList tree.canonicalChars

end Tree

end GrammarPage
