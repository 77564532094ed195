import GrammarPage.Grammar.Basic

/-!
Carrying links over from a copy. Afterwards each name that the authority defines has the link that the
copy has for it, and no link if the copy has none or does not define the name.
-/

namespace GrammarPage.Grammar

/-- The link a copy has for a name, provided that it defines the name. -/
def offeredLink? (copy : Grammar) (name : Text) : Option Link :=
  if copy.names.contains name then copy.linkFor? name else none

def transplant (copy : Grammar) (links : LinkTable) (name : Text) : LinkTable :=
  match copy.offeredLink? name with
  | some link => links.insert name link
  | none => links.erase name

/-- A name is visited once for each production that bears it. -/
def enrich (authority copy : Grammar) : Grammar :=
  { authority with links := authority.names.foldl (transplant copy) authority.links }

end GrammarPage.Grammar
