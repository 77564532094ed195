import GrammarPage.Grammar.Basic
import GrammarPage.Json.Basic

/-!
Writing a grammar as an interchange document. What reading takes for granted is left out: empty
whitespace, absent comments, flags that are off, and the name of a grammar without one. A production's
name is always written, and so are both halves of a link.
-/

namespace GrammarPage

def textOrNull (text : Option Text) : Json := text.elim .null .str

/-- A member if the text is given at all, be it empty. -/
def optionalMember (name : Text) (text : Option Text) : List (Text × Json) :=
  match text with
  | some text => [(name, .str text)]
  | none => []

def flagMember (name : Text) (flag : Bool) : List (Text × Json) :=
  if flag then [(name, .bool true)] else []

def Trivia.members (trivia : Trivia) : List (Text × Json) :=
  (if trivia.whitespace = "" then [] else [(("whitespace" : Text), .str trivia.whitespace)])
    ++ optionalMember "comment" trivia.comment ++ flagMember "newline" trivia.newline

namespace Tree

mutual
def document : Tree → Json
  | .leaf kind text trivia =>
      .object (("kind", .str kind.name) :: ("text", .str text) :: trivia.members)
  | .repeated repetition child trivia =>
      .object (("kind", .str repetition.name) :: ("children", .list [document child])
        :: trivia.members)
  | .choice first rest trivia =>
      .object (("kind", .str Kind.choice.name)
        :: ("children", .list (document first :: documents rest)) :: trivia.members)
  | .sequence first rest trivia =>
      .object (("kind", .str Kind.sequence.name)
        :: ("children", .list (document first :: documents rest)) :: trivia.members)

def documents : List Tree → List Json
  | [] => []
  | tree :: rest => document tree :: documents rest
end

end Tree

def bodyMember (body : Option Tree) : List (Text × Json) :=
  match body with
  | some body => [("body", body.document)]
  | none => []

def linkMembers (link : Option Link) : List (Text × Json) :=
  match link with
  | some link => [("link", textOrNull link.target), ("link_name", textOrNull link.title)]
  | none => []

def Production.document (links : LinkTable) (production : Production) : Json :=
  .object ((("name" : Text), textOrNull production.name) :: bodyMember production.body
    ++ optionalMember "comment" production.comment
    ++ flagMember "starts_on_new_line" production.startsOnNewLine
    ++ linkMembers (production.name.bind links.get?))

def Grammar.document (grammar : Grammar) : Json :=
  .object (("productions", .list (grammar.productions.map (·.document grammar.links)))
    :: optionalMember "name" grammar.name)

end GrammarPage
