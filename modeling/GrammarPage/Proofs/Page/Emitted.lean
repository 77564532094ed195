import GrammarPage.Proofs.Page.Landmarks

/-!
What the runs of any lines become, whatever they hold. A run is shown whole, or whole as the definition of a
name, or cut into words of which the defined ones refer. The first run without a colour stops a page, and nothing
else does.
-/

namespace GrammarPage

namespace Emitter

/-- The elements of a run, and the names anchored in front of it and behind it. -/
inductive Emits (emitter : Emitter) (links : LinkTable) (run : Run Mark) :
    List Text → List Element → List Text → Prop
  | plain (anchored : List Text) (swatch : Swatch) :
      Emits emitter links run anchored [⟨.plain, swatch, run.text⟩] anchored
  | anchor (anchored : List Text) (swatch : Swatch) (known : trimmed run.text ∈ emitter.defined) :
      Emits emitter links run anchored [⟨anchorRole links (trimmed run.text), swatch, run.text⟩]
        (trimmed run.text :: anchored)
  | words (anchored : List Text) (swatch : Swatch) :
      Emits emitter links run anchored (wordElements emitter.defined swatch "" (wordsOf run.text)) anchored

/-- The elements of runs one behind the other. -/
inductive EmitsRow (emitter : Emitter) (links : LinkTable) :
    List (Run Mark) → List Text → List Element → List Text → Prop
  | nil (anchored : List Text) : EmitsRow emitter links [] anchored [] anchored
  | cons {run : Run Mark} {rest : List (Run Mark)} {anchored middle after : List Text}
      {first later : List Element} (here : Emits emitter links run anchored first middle)
      (row : EmitsRow emitter links rest middle later after) :
      EmitsRow emitter links (run :: rest) anchored (first ++ later) after

/-- The elements of lines one below the other. -/
inductive EmitsLines (emitter : Emitter) (links : LinkTable) :
    List (List (Run Mark)) → List Text → List (List Element) → List Text → Prop
  | nil (anchored : List Text) : EmitsLines emitter links [] anchored [] anchored
  | cons {line : List (Run Mark)} {rest : List (List (Run Mark))} {anchored middle after : List Text}
      {first : List Element} {later : List (List Element)}
      (here : EmitsRow emitter links line anchored first middle)
      (lines : EmitsLines emitter links rest middle later after) :
      EmitsLines emitter links (line :: rest) anchored (first :: later) after

section All
variable {emitter : Emitter} {links : LinkTable} {property : Element → Prop}
  (runs : ∀ {run : Run Mark} {anchored after : List Text} {elements : List Element},
    Emits emitter links run anchored elements after → ∀ element ∈ elements, property element)
  {anchored after : List Text}
include runs

theorem row_elements_all {line : List (Run Mark)} {elements : List Element}
    (emits : EmitsRow emitter links line anchored elements after) :
    ∀ element ∈ elements, property element := by
  induction emits with
  | nil anchored => exact fun _ member => absurd member List.not_mem_nil
  | cons here row ih => exact List.forall_mem_append.mpr ⟨runs here, ih⟩

/-- What holds of the elements of every run holds of all elements of a page. -/
theorem lines_elements_all {lines : List (List (Run Mark))} {rows : List (List Element)}
    (emits : EmitsLines emitter links lines anchored rows after) :
    ∀ element ∈ rows.flatten, property element := by
  induction emits with
  | nil anchored => exact fun _ member => absurd member List.not_mem_nil
  | cons here below ih =>
      rw [List.flatten_cons]
      exact List.forall_mem_append.mpr ⟨row_elements_all runs here, ih⟩

end All

section Made
variable {emitter : Emitter} {links : LinkTable} {anchored after : List Text} {opens : Bool}
  {run : Run Mark} {rest line : List (Run Mark)} {lines : List (List (Run Mark))} {elements : List Element}
  {rows : List (List Element)}

theorem run_elements_emits
    (made : emitter.runElements links anchored opens run = .ok (elements, after)) :
    Emits emitter links run anchored elements after := by
  simp only [runElements] at made
  split at made
  · cases made
  · rename_i style swatch _
    split at made
    · cases made
      exact .plain anchored swatch
    · split at made
      · rename_i new
        cases made
        refine .anchor anchored swatch (List.contains_iff_mem.mp ?_)
        exact (Bool.and_eq_true_iff.mp (Bool.and_eq_true_iff.mp new).1).2
      · cases made
        exact .words anchored swatch

/-- What two stages make, the second with the names that the first leaves anchored. -/
theorem stages_split {stage : Except Mark (List Element × List Text)}
    {next : List Text → Except Mark (List Element × List Text)}
    (made : (do
      let (first, middle) ← stage
      let (later, after) ← next middle
      return (first ++ later, after)) = .ok (elements, after)) :
    ∃ first middle later, stage = .ok (first, middle) ∧ next middle = .ok (later, after) ∧
      elements = first ++ later := by
  simp only [bind, Except.bind] at made
  cases stage with
  | error mark => cases made
  | ok shown =>
      obtain ⟨first, middle⟩ := shown
      cases row : next middle with
      | error mark => simp [row] at made
      | ok shown =>
          obtain ⟨later, last⟩ := shown
          simp only [row] at made
          cases made
          exact ⟨first, middle, later, rfl, row, rfl⟩

theorem row_elements_split
    (made : emitter.rowElements links anchored (run :: rest) = .ok (elements, after)) :
    ∃ first middle later, emitter.runElements links anchored false run = .ok (first, middle) ∧
      emitter.rowElements links middle rest = .ok (later, after) ∧ elements = first ++ later :=
  stages_split made

theorem line_elements_split
    (made : emitter.lineElements links anchored (run :: rest) = .ok (elements, after)) :
    ∃ first middle later,
      emitter.runElements links anchored (opensDefinition (run :: rest)) run = .ok (first, middle) ∧
      emitter.rowElements links middle rest = .ok (later, after) ∧ elements = first ++ later :=
  stages_split made

theorem page_lines_split
    (made : emitter.pageLines links anchored (line :: lines) = .ok rows) :
    ∃ first middle later, emitter.lineElements links anchored line = .ok (first, middle) ∧
      emitter.pageLines links middle lines = .ok later ∧ rows = first :: later := by
  simp only [pageLines, bind, Except.bind] at made
  cases here : emitter.lineElements links anchored line with
  | error mark => simp [here] at made
  | ok shown =>
      obtain ⟨first, middle⟩ := shown
      simp only [here] at made
      cases below : emitter.pageLines links middle lines with
      | error mark => simp [below] at made
      | ok later =>
          simp only [below] at made
          cases made
          exact ⟨first, middle, later, rfl, below, rfl⟩

theorem row_elements_emits
    (made : emitter.rowElements links anchored line = .ok (elements, after)) :
    EmitsRow emitter links line anchored elements after := by
  induction line generalizing anchored elements with
  | nil =>
      cases made
      exact .nil _
  | cons run rest ih =>
      obtain ⟨first, middle, later, here, row, rfl⟩ := row_elements_split made
      exact .cons (run_elements_emits here) (ih row)

-- Only the first run of a line can be told a definition, and what it becomes is told by `Emits` as well.
theorem line_elements_emits
    (made : emitter.lineElements links anchored line = .ok (elements, after)) :
    EmitsRow emitter links line anchored elements after := by
  cases line with
  | nil =>
      cases made
      exact .nil anchored
  | cons run rest =>
      obtain ⟨first, middle, later, here, row, rfl⟩ := line_elements_split made
      exact .cons (run_elements_emits here) (row_elements_emits row)

theorem page_lines_emits (made : emitter.pageLines links anchored lines = .ok rows) :
    ∃ after, EmitsLines emitter links lines anchored rows after := by
  induction lines generalizing anchored rows with
  | nil =>
      cases made
      exact ⟨_, .nil _⟩
  | cons line lines ih =>
      obtain ⟨first, middle, later, here, below, rfl⟩ := page_lines_split made
      obtain ⟨after, emits⟩ := ih below
      exact ⟨after, .cons (line_elements_emits here) emits⟩

theorem page_split {title : Option Text} {page : Page}
    (made : emitter.page links lines title = .ok page) :
    emitter.pageLines links [] lines = .ok page.lines ∧ page.title = emitter.chosenTitle title := by
  simp only [Emitter.page, bind, Except.bind] at made
  cases shown : emitter.pageLines links [] lines with
  | error mark => simp [shown] at made
  | ok rows =>
      simp only [shown] at made
      cases made
      exact ⟨rfl, rfl⟩

end Made

end Emitter

/-! Where a page stops. -/

namespace Settings

/-- The mark of the run is a style, and the palette has a colour for it. -/
def Colours (settings : Settings) (run : Run Mark) : Prop :=
  ∃ style swatch, run.mark = .style style ∧ settings.palette style = some swatch

/-- Read line by line, the run is the first without a colour. -/
def StopsAt (settings : Settings) (lines : List (List (Run Mark))) (run : Run Mark) : Prop :=
  ∃ before after, lines.flatten = before ++ run :: after ∧ (∀ earlier ∈ before, settings.Colours earlier) ∧
    ¬ settings.Colours run

end Settings

namespace Emitter

/-- The mark that a stage of a page stops at. -/
def stop {α : Type} : Except Mark α → Option Mark
  | .ok _ => none
  | .error mark => some mark

theorem stop_none_iff {α : Type} {made : Except Mark α} : stop made = none ↔ ∃ value, made = .ok value := by
  cases made <;> simp [stop]

theorem stop_some_iff {α : Type} {made : Except Mark α} {mark : Mark} :
    stop made = some mark ↔ made = .error mark := by
  cases made <;> simp [stop]

/-- The mark of a run that has no colour. -/
def colourless (emitter : Emitter) (run : Run Mark) : Option Mark :=
  if (emitter.swatch? run.mark).isSome then none else some run.mark

theorem swatch_some_iff {emitter : Emitter} {run : Run Mark} :
    (emitter.swatch? run.mark).isSome ↔ emitter.settings.Colours run := by
  obtain ⟨text, mark⟩ := run
  cases mark with
  | style style =>
      simp only [swatch?, Settings.Colours, Option.isSome_map, Option.isSome_iff_exists, Mark.style.injEq]
      constructor
      · rintro ⟨swatch, found⟩
        exact ⟨style, swatch, rfl, found⟩
      · rintro ⟨_, swatch, rfl, found⟩
        exact ⟨swatch, found⟩
  | other value => simp [swatch?, Settings.Colours]

theorem colourless_none_iff {emitter : Emitter} {run : Run Mark} :
    emitter.colourless run = none ↔ emitter.settings.Colours run := by
  rw [← swatch_some_iff, colourless]
  split <;> simp [*]

theorem colourless_some_iff {emitter : Emitter} {run : Run Mark} {mark : Mark} :
    emitter.colourless run = some mark ↔ ¬ emitter.settings.Colours run ∧ run.mark = mark := by
  rw [← swatch_some_iff]
  simp [colourless]

section Stops
variable {emitter : Emitter} {links : LinkTable} {anchored : List Text}

theorem run_stop (opens : Bool) (run : Run Mark) :
    stop (emitter.runElements links anchored opens run) = emitter.colourless run := by
  rw [colourless, runElements]
  cases emitter.swatch? run.mark with
  | none => rfl
  | some found =>
      dsimp only
      split
      · rfl
      · split <;> rfl

/-- Two stages stop where the first one does, or else where the second does. -/
theorem stages_stop {stage : Except Mark (List Element × List Text)}
    {next : List Text → Except Mark (List Element × List Text)} {later : Option Mark}
    (goes : ∀ middle, stop (next middle) = later) :
    stop (do
      let (first, middle) ← stage
      let (more, after) ← next middle
      return (first ++ more, after)) = (stop stage).or later := by
  cases stage with
  | error mark => rfl
  | ok shown =>
      obtain ⟨first, middle⟩ := shown
      rw [stop, Option.none_or, ← goes middle]
      change stop (next middle >>= _) = stop (next middle)
      cases next middle <;> rfl

theorem find_colourless_cons (run : Run Mark) (rest : List (Run Mark)) :
    (run :: rest).findSome? emitter.colourless =
      (emitter.colourless run).or (rest.findSome? emitter.colourless) := by
  rw [List.findSome?_cons]
  cases emitter.colourless run <;> rfl

theorem row_stop (line : List (Run Mark)) :
    stop (emitter.rowElements links anchored line) = line.findSome? emitter.colourless := by
  induction line generalizing anchored with
  | nil => rfl
  | cons run rest ih =>
      rw [find_colourless_cons, ← run_stop false run]
      exact stages_stop @ih

theorem line_stop (line : List (Run Mark)) :
    stop (emitter.lineElements links anchored line) = line.findSome? emitter.colourless := by
  cases line with
  | nil => rfl
  | cons run rest =>
      have row : ∀ middle, stop (emitter.rowElements links middle rest) = rest.findSome? emitter.colourless :=
        fun middle => row_stop rest
      rw [find_colourless_cons, ← run_stop (opensDefinition (run :: rest)) run]
      exact stages_stop row

theorem page_lines_stop (lines : List (List (Run Mark))) :
    stop (emitter.pageLines links anchored lines) = lines.flatten.findSome? emitter.colourless := by
  induction lines generalizing anchored with
  | nil => rfl
  | cons line rest ih =>
      rw [List.flatten_cons, List.findSome?_append, ← line_stop line, pageLines]
      rcases emitter.lineElements links anchored line with mark | ⟨elements, middle⟩
      · rfl
      · rw [stop, Option.none_or, ← @ih middle]
        change stop (emitter.pageLines links middle rest >>= _) = _
        cases emitter.pageLines links middle rest <;> rfl

theorem page_stop (lines : List (List (Run Mark))) (title : Option Text) :
    stop (emitter.page links lines title) = lines.flatten.findSome? emitter.colourless := by
  rw [← @page_lines_stop emitter links [], page]
  cases emitter.pageLines links [] lines <;> rfl

/-- Every run has to have a colour, and nothing else has to hold. -/
theorem page_made_iff {lines : List (List (Run Mark))} {title : Option Text} :
    (∃ page, emitter.page links lines title = .ok page) ↔
      ∀ line ∈ lines, ∀ run ∈ line, emitter.settings.Colours run := by
  rw [← stop_none_iff, page_stop, List.findSome?_eq_none_iff]
  simp only [colourless_none_iff, List.mem_flatten]
  constructor
  · intro coloured line inLines run inLine
    exact coloured run ⟨line, inLines, inLine⟩
  · rintro coloured run ⟨line, inLines, inLine⟩
    exact coloured line inLines run inLine

theorem page_stopped_iff {lines : List (List (Run Mark))} {title : Option Text} {mark : Mark} :
    emitter.page links lines title = .error mark ↔
      ∃ run, emitter.settings.StopsAt lines run ∧ run.mark = mark := by
  rw [← stop_some_iff, page_stop, List.findSome?_eq_some_iff]
  simp only [colourless_none_iff, colourless_some_iff]
  constructor
  · rintro ⟨before, run, after, parts, ⟨bare, same⟩, coloured⟩
    exact ⟨run, ⟨before, after, parts, coloured, bare⟩, same⟩
  · rintro ⟨run, ⟨before, after, parts, coloured, bare⟩, same⟩
    exact ⟨before, run, after, parts, ⟨bare, same⟩, coloured⟩

end Stops

end Emitter

end GrammarPage
