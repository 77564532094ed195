import GrammarPage.Display.Emission
import GrammarPage.Proofs.Interchange.Mirrored
import GrammarPage.Proofs.Page.Markup

/-!
What a page depends on. An emitter comes to the same page whatever it kept of the one before. Of the links only
those of the names that have an identity on the page have a part in it, and none has a part in whether there is a
page at all.
-/

namespace GrammarPage

namespace Emission
variable {α β : Type}

/-- Work that failed keeps some names, where a stage of a page that fails has none to give. -/
inductive Matches : Except Mark α × List Text → Except Mark (α × List Text) → Prop where
  | ok (value : α) (anchored : List Text) : Matches (.ok value, anchored) (.ok (value, anchored))
  | error (mark : Mark) (anchored : List Text) : Matches (.error mark, anchored) (.error mark)

/-- The work does what the stage does. -/
def Follows (work : Emission α) (stage : List Text → Except Mark (α × List Text)) : Prop :=
  ∀ anchored, Matches (work.run.run anchored) (stage anchored)

theorem follows_pure (value : α) : Follows (pure value) fun anchored => .ok (value, anchored) :=
  fun anchored => .ok value anchored

theorem Follows.bind {first : Emission α} {next : α → Emission β}
    {stage : List Text → Except Mark (α × List Text)}
    {later : α → List Text → Except Mark (β × List Text)}
    (begins : Follows first stage) (goes : ∀ value, Follows (next value) (later value)) :
    Follows (first >>= next) fun anchored => stage anchored >>= fun shown => later shown.1 shown.2 := by
  intro anchored
  have start := begins anchored
  rw [run_bind]
  generalize first.run.run anchored = reached at start ⊢
  dsimp only
  generalize stage anchored = made at start ⊢
  cases start with
  | ok value after => exact goes value after
  | error mark kept => exact .error mark kept

end Emission

namespace Emitter
open Emission
variable (emitter : Emitter) (links : LinkTable)

theorem emit_run (opens : Bool) (run : Run Mark) :
    Follows (emitter.emitRun links opens run) fun anchored => emitter.runElements links anchored opens run := by
  intro anchored
  have read : (get : Emission (List Text)).run.run anchored = (.ok anchored, anchored) := rfl
  rw [emitRun, run_bind, read]
  dsimp only
  cases emitter.runElements links anchored opens run with
  | error mark => exact .error mark anchored
  | ok shown => exact .ok shown.1 shown.2

theorem emit_row (line : List (Run Mark)) :
    Follows (emitter.emitRow links line) fun anchored => emitter.rowElements links anchored line := by
  induction line with
  | nil => exact follows_pure []
  | cons run rest ih =>
      exact (emitter.emit_run links false run).bind fun elements => ih.bind fun more => follows_pure _

theorem emit_line (line : List (Run Mark)) :
    Follows (emitter.emitLine links line) fun anchored => emitter.lineElements links anchored line := by
  cases line with
  | nil => exact follows_pure []
  | cons run rest =>
      exact (emitter.emit_run links _ run).bind fun elements =>
        (emitter.emit_row links rest).bind fun more => follows_pure _

theorem emit_lines (lines : List (List (Run Mark))) (anchored : List Text) :
    ((emitter.emitLines links lines).run.run anchored).1 = emitter.pageLines links anchored lines := by
  induction lines generalizing anchored with
  | nil => rfl
  | cons line rest ih =>
      have start := emitter.emit_line links line anchored
      rw [emitLines, run_bind, pageLines]
      generalize (emitter.emitLine links line).run.run anchored = reached at start ⊢
      dsimp only at start
      generalize emitter.lineElements links anchored line = made at start ⊢
      cases start with
      | error mark kept => rfl
      | ok elements after =>
          have below := ih after
          dsimp only
          rw [run_bind]
          change _ = emitter.pageLines links after rest >>= fun more => .ok (elements :: more)
          rw [← below]
          rcases (emitter.emitLines links rest).run.run after with ⟨_ | _, last⟩ <;> rfl

/-- A page is made as if nothing had been kept. -/
theorem emit_page (lines : List (List (Run Mark))) (title : Option Text) (anchored : List Text) :
    ((emitter.emit links lines title).run.run anchored).1 = emitter.page links lines title := by
  have made := emitter.emit_lines links lines []
  rw [emit, run_bind, page, ← made]
  change ((emitter.emitLines links lines >>= fun rows =>
    (pure ⟨emitter.chosenTitle title, rows⟩ : Emission Page)).run.run []).1 = _
  rw [run_bind]
  rcases (emitter.emitLines links lines).run.run [] with ⟨_ | _, last⟩ <;> rfl

end Emitter

/-! The same page under other links. -/

def Role.relink (links : LinkTable) : Role → Role
  | .anchor name | .outward name _ _ => Emitter.anchorRole links name
  | .plain => .plain
  | .reference name => .reference name

def Element.relink (links : LinkTable) (element : Element) : Element :=
  { element with role := element.role.relink links }

def Page.relink (links : LinkTable) (page : Page) : Page :=
  { page with lines := page.lines.map (·.map (Element.relink links)) }

/-- Relinking a name depends on its own link alone. -/
theorem Element.relink_congr {one two : LinkTable} {element : Element}
    (agree : ∀ landmark ∈ element.landmark?, ∀ name, landmark.id = some name → one.get? name = two.get? name) :
    element.relink one = element.relink two := by
  obtain ⟨role, swatch, text⟩ := element
  cases role with
  | plain | reference name => rfl
  | anchor name | outward name target title =>
      have same : one.get? name = two.get? name := agree _ rfl name rfl
      simp only [relink, Role.relink, Emitter.anchorRole, same]

/-- Links have a part in a page by the names that have an identity on it, and none in there being a page. -/
structure HangsOnIds (make : LinkTable → Except Mark Page) : Prop where
  failed : ∀ {links mark}, make links = .error mark → ∀ others, make others = .error mark
  made : ∀ {links page}, make links = .ok page → ∀ others : LinkTable,
    (∀ landmark ∈ Document.landmarks page.markup, ∀ name, landmark.id = some name →
      others.get? name = links.get? name) → make others = .ok page

namespace Emitter
variable {emitter : Emitter} {links : LinkTable} (other : LinkTable) {anchored : List Text}

theorem relink_anchor_role (name : Text) : (anchorRole links name).relink other = anchorRole other name := by
  rw [anchorRole]
  split
  · rfl
  · split <;> rfl

theorem relink_plain_elements (swatch : Swatch) (text : Text) :
    (plainElements swatch text).map (Element.relink other) = plainElements swatch text := by
  rw [plainElements]
  split <;> rfl

theorem relink_word_elements (defined : List Text) (swatch : Swatch) (before : Text) (words : List Text) :
    (wordElements defined swatch before words).map (Element.relink other) =
      wordElements defined swatch before words := by
  induction words generalizing before with
  | nil => exact relink_plain_elements other swatch before
  | cons word rest ih =>
      rw [wordElements]
      split
      · rw [List.map_append, List.map_cons, relink_plain_elements, ih]
        rfl
      · exact ih _

/-- What a stage makes under other links: the same elements, relinked, and the same names anchored. -/
def relinked (made : Except Mark (List Element × List Text)) : Except Mark (List Element × List Text) :=
  made.map fun shown => (shown.1.map (Element.relink other), shown.2)

theorem run_relink (opens : Bool) (run : Run Mark) :
    emitter.runElements other anchored opens run = relinked other (emitter.runElements links anchored opens run) := by
  rw [runElements, runElements]
  split
  · rfl
  · dsimp only
    split
    · rfl
    · split
      · simp [relinked, Except.map, Element.relink, relink_anchor_role]
      · simp [relinked, Except.map, relink_word_elements]

/-- Stages one behind the other are relinked each by itself. -/
theorem stages_relink {first second : Except Mark (List Element × List Text)}
    {next following : List Text → Except Mark (List Element × List Text)}
    (begins : second = relinked other first)
    (goes : ∀ anchored, following anchored = relinked other (next anchored)) :
    (do
      let (elements, anchored) ← second
      let (more, anchored) ← following anchored
      return (elements ++ more, anchored)) =
    relinked other (do
      let (elements, anchored) ← first
      let (more, anchored) ← next anchored
      return (elements ++ more, anchored)) := by
  subst begins
  cases first with
  | error mark => rfl
  | ok shown =>
      obtain ⟨elements, middle⟩ := shown
      change (following middle >>= _) = relinked other (next middle >>= _)
      rw [goes]
      rcases next middle with _ | ⟨more, after⟩
      · rfl
      · simp [relinked, Except.map, bind, Except.bind, pure, Except.pure]

theorem row_relink (line : List (Run Mark)) :
    emitter.rowElements other anchored line = relinked other (emitter.rowElements links anchored line) := by
  induction line generalizing anchored with
  | nil => rfl
  | cons run rest ih => exact stages_relink other (run_relink other false run) @ih

theorem line_relink (line : List (Run Mark)) :
    emitter.lineElements other anchored line = relinked other (emitter.lineElements links anchored line) := by
  cases line with
  | nil => rfl
  | cons run rest =>
      exact stages_relink other (run_relink other _ run) fun after => @row_relink emitter links other after rest

theorem page_lines_relink (lines : List (List (Run Mark))) :
    emitter.pageLines other anchored lines =
      (emitter.pageLines links anchored lines).map (·.map (·.map (Element.relink other))) := by
  induction lines generalizing anchored with
  | nil => rfl
  | cons line rest ih =>
      rw [pageLines, pageLines, line_relink other line]
      rcases emitter.lineElements links anchored line with _ | ⟨elements, after⟩
      · rfl
      · change (emitter.pageLines other after rest >>= _) = Except.map _ (emitter.pageLines links after rest >>= _)
        rw [ih]
        cases emitter.pageLines links after rest <;> rfl

theorem page_relink (lines : List (List (Run Mark))) (title : Option Text) :
    emitter.page other lines title = (emitter.page links lines title).map (Page.relink other) := by
  rw [page, page, page_lines_relink other lines]
  cases emitter.pageLines links [] lines <;> rfl

theorem hangs_on_ids (lines : List (List (Run Mark))) (title : Option Text) :
    HangsOnIds fun links => emitter.page links lines title := by
  constructor
  · intro links mark failed others
    rw [page_relink others, failed]
    rfl
  · intro links page made others agree
    -- A page relinked with its own links is that page.
    have own : page.relink links = page := by
      have again := @page_relink emitter links links lines title
      rw [made] at again
      exact (Except.ok.inj again).symm
    have same : page.relink others = page.relink links := by
      simp only [Page.relink, Page.mk.injEq, true_and]
      refine List.map_congr_left fun line inPage => List.map_congr_left fun element inLine => ?_
      refine Element.relink_congr fun landmark shown => agree landmark ?_
      rw [Page.landmarks_markup]
      exact List.mem_filterMap.mpr ⟨element, List.mem_flatten.mpr ⟨line, inPage, inLine⟩, shown⟩
    rw [page_relink others, made]
    exact congrArg Except.ok (same.trans own)

end Emitter
end GrammarPage
