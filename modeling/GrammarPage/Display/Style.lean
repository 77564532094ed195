import GrammarPage.Text.Basic

/-!
The five styles in which a grammar is shown.
-/

namespace GrammarPage

inductive Style where
  | plainText
  | production
  | comment
  | terminal
  | extendedTerminal
  deriving DecidableEq, Repr

namespace Style

def name : Style → Text
  | .plainText => "PlainText"
  | .production => "Production"
  | .comment => "Comment"
  | .terminal => "Terminal"
  | .extendedTerminal => "ExtendedTerminal"

/-- The constant by which a message names a style. -/
def constant : Style → Text
  | .plainText => "PLAIN_TEXT"
  | .production => "PRODUCTION"
  | .comment => "COMMENT"
  | .terminal => "TERMINAL"
  | .extendedTerminal => "EXTENDED_TERMINAL"

def all : List Style := [.plainText, .production, .comment, .terminal, .extendedTerminal]

def ofName? (name : Text) : Option Style := all.find? (·.name = name)

theorem of_name_name (style : Style) : ofName? style.name = some style := by
  cases style <;> simp [ofName?, all, name]

def shown (style : Style) : Text :=
  "<StyleTag." ++ style.constant ++ ": '" ++ style.name ++ "'>"

end Style

end GrammarPage
