import GrammarPage.Display.Page

/-!
Emission, as an emitter goes about it. While it works it keeps the names that have an element of their own, and
where a mark without a colour stops it, it keeps those of the page it has not finished. A page starts from no
names, whatever was kept.
-/

namespace GrammarPage

/-- Work on a page. The names anchored so far are there behind it, also if it fails. -/
abbrev Emission (α : Type) := ExceptT Mark (StateM (List Text)) α

namespace Emitter

def emitRun (emitter : Emitter) (links : LinkTable) (opens : Bool) (run : Run Mark) :
    Emission (List Element) := do
  match emitter.runElements links (← get) opens run with
  | .error mark => throw mark
  | .ok (elements, anchored) => do
      set anchored
      return elements

def emitRow (emitter : Emitter) (links : LinkTable) : List (Run Mark) → Emission (List Element)
  | [] => return []
  | run :: rest => do
      let elements ← emitter.emitRun links false run
      let more ← emitter.emitRow links rest
      return elements ++ more

def emitLine (emitter : Emitter) (links : LinkTable) (line : List (Run Mark)) : Emission (List Element) :=
  match line with
  | [] => return []
  | run :: rest => do
      let elements ← emitter.emitRun links (opensDefinition line) run
      let more ← emitter.emitRow links rest
      return elements ++ more

def emitLines (emitter : Emitter) (links : LinkTable) :
    List (List (Run Mark)) → Emission (List (List Element))
  | [] => return []
  | line :: rest => do
      let elements ← emitter.emitLine links line
      let more ← emitter.emitLines links rest
      return elements :: more

def emit (emitter : Emitter) (links : LinkTable) (lines : List (List (Run Mark)))
    (title : Option Text) : Emission Page := do
  set ([] : List Text)
  return ⟨emitter.chosenTitle title, ← emitter.emitLines links lines⟩

end Emitter

end GrammarPage
