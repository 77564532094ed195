import GrammarPage.Display.Style
import GrammarPage.Grammar.Basic
import GrammarPage.Text.LineEnd

/-!
The stream of styled tokens and line breaks that shows a grammar. No spacing is made up between the
elements of a body: it comes from the trivia of the nodes. Inside a sequence, two spaces follow an
element whose last token reads as an indent.
-/

namespace GrammarPage

structure Token where
  text : Text
  style : Style
  deriving DecidableEq, Repr

inductive Item where
  | token (token : Token)
  | lineBreak
  deriving DecidableEq, Repr

namespace Item

def plain (text : Text) : Item := .token ⟨text, .plainText⟩

def comment (text : Text) : Item := .token ⟨text, .comment⟩

def indentText : Text := "\t"

def indent : Item := plain indentText

def isIndent : Item → Bool
  | .token styled => styled.text = indentText
  | .lineBreak => false

def parenthesized (inner : List Item) : List Item := plain "( " :: inner ++ [plain " )"]

end Item

def Leaf.style : Leaf → Style
  | .terminal => .terminal
  | .extendedTerminal => .extendedTerminal
  | .reference => .production

def Leaf.shownText (text : Text) : Leaf → Text
  | .terminal => quoteTerminal text
  | .extendedTerminal | .reference => text

/-- A comment behind its mark, if there is one to show. -/
def remarkItems (mark : Text) (comment : Option Text) : List Item :=
  match filled comment with
  | some text => [Item.comment (mark ++ text)]
  | none => []

def spaceItems (whitespace : Text) : List Item :=
  if whitespace = "" then [] else [Item.comment whitespace]

def Trivia.items (trivia : Trivia) : List Item :=
  spaceItems trivia.whitespace ++ remarkItems " //" trivia.comment
    ++ if trivia.newline then [.lineBreak, Item.indent] else []

def endsInIndent (items : List Item) : Bool := items.getLast?.any Item.isIndent

namespace Tree

/-- An element of a sequence; a choice stands in parentheses there. -/
def asElement (tree : Tree) (items : List Item) : List Item :=
  if tree.isChoice then Item.parenthesized items else items

/-- What a repetition applies to; a choice or a sequence stands in parentheses there. -/
def asOperand (tree : Tree) (items : List Item) : List Item :=
  if tree.isGroup then Item.parenthesized items else items

mutual
def items : Tree → List Item
  | .leaf kind text trivia => .token ⟨kind.shownText text, kind.style⟩ :: trivia.items
  | .repeated repetition child trivia =>
      child.asOperand (items child) ++ Item.plain (Text.singleton repetition.mark) :: trivia.items
  | .choice first rest trivia => items first ++ alternativeItems rest ++ trivia.items
  | .sequence first rest trivia =>
      let shown := first.asElement (items first)
      shown ++ elementItems (endsInIndent shown) rest ++ trivia.items

def alternativeItems : List Tree → List Item
  | [] => []
  | tree :: rest => Item.plain "| " :: items tree ++ alternativeItems rest

/-- The elements after the first, given whether the element before ended in an indent. -/
def elementItems (indented : Bool) : List Tree → List Item
  | [] => []
  | tree :: rest =>
      let shown := tree.asElement (items tree)
      (if indented then [Item.plain "  "] else []) ++ shown ++ elementItems (endsInIndent shown) rest
end

end Tree

namespace Production

/-- What stands between a name and its body. -/
def opening (production : Production) : List Item :=
  if production.startsOnNewLine then [.lineBreak, Item.indent, Item.plain "| "] else [Item.plain " "]

def items (production : Production) : List Item :=
  match production.body with
  | some body =>
      .token ⟨production.name.getD "", .production⟩ :: Item.plain ":" :: production.opening
        ++ body.items ++ Item.plain ";" :: remarkItems "  //" production.comment ++ [.lineBreak]
  | none => remarkItems "// " production.comment ++ [.lineBreak]

end Production

def Grammar.items (grammar : Grammar) : List Item := grammar.productions.flatMap (·.items)

def lineItems (line : List CodePoint) : List Item :=
  if line = [] then [.lineBreak] else [Item.plain (Text.ofList line), .lineBreak]

/-- The stream for text that is no grammar: each line is one plain token. -/
def plainItems (text : Text) : List Item := (Text.lines text.toList).flatMap lineItems

end GrammarPage
