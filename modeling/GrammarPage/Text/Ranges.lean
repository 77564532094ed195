import GrammarPage.Text.Basic

/-!
Character classes given as tables of code points.
-/

namespace GrammarPage.Text

/-- Whether a code point lies in one of the closed ranges. -/
def within (ranges : List (Nat × Nat)) (c : CodePoint) : Bool :=
  ranges.any fun range => range.1 ≤ c.toNat && c.toNat ≤ range.2

end GrammarPage.Text
