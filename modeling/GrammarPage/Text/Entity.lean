import GrammarPage.Text.Basic

/-!
Markup entities. Five characters may not stand for themselves in markup text or in an attribute value.
-/

namespace GrammarPage.Text

def entity (c : CodePoint) : List CodePoint :=
  if c = '&' then ("&amp;" : Text).toList
  else if c = '<' then ("&lt;" : Text).toList
  else if c = '>' then ("&gt;" : Text).toList
  else if c = '\x22' then ("&quot;" : Text).toList
  else if c = '\x27' then ("&#x27;" : Text).toList
  else [c]

def escaped (text : List CodePoint) : List CodePoint := text.flatMap entity

theorem escaped_append (left right : List CodePoint) :
    escaped (left ++ right) = escaped left ++ escaped right := by
  simp [escaped]

end GrammarPage.Text

namespace GrammarPage

def escapeMarkup (text : Text) : Text := Text.ofList (Text.escaped text.toList)

end GrammarPage
