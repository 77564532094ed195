import GrammarPage.Display.Style
import GrammarPage.Json.Shown

/-!
Values that stand where a style or an item of a stream should.
-/

namespace GrammarPage

/-- The mark on a run of a line that may come from anywhere: a style, or some other value. -/
inductive Mark where
  | style (style : Style)
  | other (value : Json)

def Mark.shown : Mark → Text
  | .style known => known.shown
  | .other value => value.shown

def unknownStyleMessage (mark : Mark) : Text := "bad style: " ++ mark.shown

def foreignItemMessage (value : Json) : Text :=
  "Expected StyledToken or LINE_BREAK, got " ++ value.shown

end GrammarPage
