import GrammarPage.Display.Stream
import GrammarPage.Text.Blank

/-!
Laying a stream out in lines of styled runs, in one pass. The layout holds the runs of the line under
way and one run that may still grow; blank text never opens a run of its own style. Blanks at the end
of a line are dropped, and so is a blank line before everything else.
-/

namespace GrammarPage

/-- A run of text under one mark. -/
structure Run (mark : Type) where
  text : Text
  mark : mark
  deriving DecidableEq, Repr

abbrev Line := List (Run Style)

def lineText {mark : Type} (line : List (Run mark)) : Text :=
  Text.join (line.map (·.text))

structure Layout where
  broken : Bool
  line : Line
  pending : Option (Run Style)
  deriving DecidableEq, Repr

namespace Layout

def start : Layout := ⟨false, [], none⟩

/-- The pending run with one more token, or the run to set aside and the new pending run. -/
def join (run : Run Style) (token : Token) : Line × Run Style :=
  if blank run.text then ([], ⟨run.text ++ token.text, token.style⟩)
  else if blank token.text || run.mark = token.style then ([], ⟨run.text ++ token.text, run.mark⟩)
  else ([run], ⟨token.text, token.style⟩)

def add (layout : Layout) (token : Token) : Layout :=
  match layout.pending with
  | none => { layout with pending := some ⟨token.text, token.style⟩ }
  | some run =>
      let joined := join run token
      { layout with line := layout.line ++ joined.1, pending := some joined.2 }

/-- The line under way as it stands when it ends here. -/
def flushed (layout : Layout) : Line :=
  match layout.pending with
  | none => layout.line
  | some run =>
      if blank run.text then layout.line else layout.line ++ [⟨trimmedEnd run.text, run.mark⟩]

/-- The line that a line break gives. -/
def brokenLine (layout : Layout) : List Line :=
  if layout.broken || layout.flushed ≠ [] then [layout.flushed] else []

/-- The line that the end of the stream gives. -/
def lastLine (layout : Layout) : List Line :=
  if layout.flushed = [] then [] else [layout.flushed]

def step (layout : Layout) : Item → List Line × Layout
  | .token token => ([], layout.add token)
  | .lineBreak => (layout.brokenLine, ⟨true, [], none⟩)

end Layout

def linesFrom (layout : Layout) : List Item → List Line
  | [] => layout.lastLine
  | item :: rest => (layout.step item).1 ++ linesFrom (layout.step item).2 rest

def linesOf (items : List Item) : List Line := linesFrom .start items

/-- An item of a stream that may hold other values as well. -/
inductive Entry (value : Type) where
  | item (item : Item)
  | foreign (value : value)

/-- Lays out as far as the first foreign value, which takes the unfinished line with it. -/
def linesUntil {value : Type} (layout : Layout) : List (Entry value) → List Line × Option value
  | [] => (layout.lastLine, none)
  | .foreign value :: _ => ([], some value)
  | .item item :: rest =>
      let later := linesUntil (layout.step item).2 rest
      ((layout.step item).1 ++ later.1, later.2)

theorem lines_until_item {value : Type} (layout : Layout) (items : List Item) :
    linesUntil layout (items.map fun item => (.item item : Entry value)) =
      (linesFrom layout items, none) := by
  induction items generalizing layout with
  | nil => rfl
  | cons item rest ih => simp [linesUntil, linesFrom, ih]

end GrammarPage
