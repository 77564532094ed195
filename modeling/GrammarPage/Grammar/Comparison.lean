import GrammarPage.Grammar.Basic

/-!
Comparing a grammar with a copy of it, production by production. Only names and canonical lines count,
and of equally named productions only the first. The start symbol may be missing on either side, but
where both sides have it its lines must agree too.
-/

namespace GrammarPage

structure Mismatch where
  name : Text
  authority : Text
  copy : Text
  deriving DecidableEq, Repr

structure Report where
  mismatches : List Mismatch
  missingInCopy : List Text
  missingInAuthority : List Text
  deriving DecidableEq, Repr

def startSymbol : Text := "start"

namespace Grammar

/-- The canonical line of the first production of a name. -/
def canonicalOf? (grammar : Grammar) (name : Text) : Option Text :=
  (grammar.lookup? name).map (·.canonical)

def mismatch? (authority copy : Grammar) (name : Text) : Option Mismatch :=
  match authority.canonicalOf? name, copy.canonicalOf? name with
  | some left, some right => if left = right then none else some ⟨name, left, right⟩
  | _, _ => none

/-- The names other than the start symbol that the other grammar does not define. -/
def missingFrom (grammar other : Grammar) (start : Text) : List Text :=
  grammar.defined.filter fun name => name ≠ start && !other.names.contains name

def compare (authority copy : Grammar) (start : Text) : Report :=
  ⟨authority.defined.filterMap (mismatch? authority copy),
    authority.missingFrom copy start, copy.missingFrom authority start⟩

end Grammar

def Mismatch.text (mismatch : Mismatch) : Text :=
  "MISMATCH for '" ++ mismatch.name ++ "'\nAUTHORITY:\n" ++ mismatch.authority ++ "\nCOPY:\n"
    ++ mismatch.copy ++ "\n"

namespace Report

def ok (report : Report) : Bool :=
  report.mismatches.isEmpty && report.missingInCopy.isEmpty && report.missingInAuthority.isEmpty

def summary (report : Report) : Text :=
  if report.ok then "Grammars match."
  else toString report.mismatches.length ++ " mismatch(es), "
    ++ toString report.missingInCopy.length ++ " missing in copy, "
    ++ toString report.missingInAuthority.length ++ " missing in authority"

def details (report : Report) : List Text :=
  report.mismatches.map (·.text)
    ++ report.missingInCopy.map (fun name : Text => "Copy doesn't contain '" ++ name ++ "'")
    ++ report.missingInAuthority.map (fun name : Text => "Authority doesn't contain '" ++ name ++ "'")

def text (report : Report) : Text :=
  if report.ok then report.summary
  else Text.intercalate "\n" (report.details ++ [("" : Text), report.summary])

end Report

end GrammarPage
