import GrammarPage.Proofs.Grammar.Agreement
import GrammarPage.Proofs.Page.Legible

/-!
What can be linked to on a page and what links. The names of a grammar are told again from the runs of
its lines: a word is a reference if it is defined, and the first run of a line is a definition if the second
begins with a colon.
-/

namespace GrammarPage

/-- An element with an identity or a link, and the text it shows. -/
structure Landmark where
  id : Option Text
  href : Option Text
  text : Text
  deriving DecidableEq, Repr

namespace Landmark

def reference (name : Text) : Landmark := ⟨none, some ("#" ++ name), name⟩

/-- The definition of a name, which links out if the table has somewhere to go. -/
def anchor (links : LinkTable) (name : Text) : Landmark :=
  ⟨some name, (links.get? name).bind fun link => filled link.target, name⟩

/-- The references among names. -/
def references (defined names : List Text) : List Landmark :=
  (names.filter defined.contains).map reference

theorem references_append (defined left right : List Text) :
    references defined (left ++ right) = references defined left ++ references defined right := by
  simp [references]

theorem references_known {defined : List Text} {name : Text} (known : name ∈ defined)
    (names : List Text) :
    references defined (name :: names) = reference name :: references defined names := by
  rw [references, List.filter_cons_of_pos (List.contains_iff_mem.mpr known)]
  rfl

theorem references_congr {defined others : List Text} (same : ∀ name, name ∈ defined ↔ name ∈ others)
    (names : List Text) : references defined names = references others names := by
  have known : defined.contains = others.contains := by
    funext name
    simp [same name]
  rw [references, references, known]

end Landmark

def Element.landmark? (element : Element) : Option Landmark :=
  match element.role with
  | .plain => none
  | .anchor name => some ⟨some name, none, trimmed element.text⟩
  | .outward name target _ => some ⟨some name, some target, trimmed element.text⟩
  | .reference name => some ⟨none, some ("#" ++ name), trimmed element.text⟩

def landmarksOf (elements : List Element) : List Landmark := elements.filterMap Element.landmark?

theorem landmarks_of_append (left right : List Element) :
    landmarksOf (left ++ right) = landmarksOf left ++ landmarksOf right := List.filterMap_append

namespace Emitter

theorem plain_landmarks (swatch : Swatch) (text : Text) :
    landmarksOf (plainElements swatch text) = [] := by
  rw [plainElements]
  split <;> rfl

theorem word_landmarks (defined : List Text) (swatch : Swatch) (before : Text) (words : List Text) :
    landmarksOf (wordElements defined swatch before words) =
      Landmark.references defined (words.map trimmed) := by
  induction words generalizing before with
  | nil => exact plain_landmarks swatch before
  | cons word rest ih =>
      rw [Landmark.references] at ih ⊢
      rw [wordElements, List.map_cons]
      by_cases known : defined.contains (trimmed word) = true
      · rw [if_pos known, landmarks_of_append, plain_landmarks, List.nil_append,
          List.filter_cons_of_pos known, List.map_cons, ← ih]
        rfl
      · rw [if_neg known, ih, List.filter_cons_of_neg known]

theorem words_of_trimmed (text : Text) :
    ((wordsOf text).map trimmed).filter (· ≠ ("" : Text)) = wordNames text := by
  have same : trimmed ∘ Text.ofList = Text.ofList ∘ Text.trim := by
    funext word
    simp [trimmed]
  rw [wordNames, ← Text.words_trimmed, wordsOf, List.map_map, same, ← List.map_map, List.filter_map]
  congr 1
  exact List.filter_congr fun word _ => by simp

theorem words_defined {defined : List Text} (nonempty : ("" : Text) ∉ defined) (text : Text) :
    Landmark.references defined ((wordsOf text).map trimmed) =
      Landmark.references defined (wordNames text) := by
  rw [← words_of_trimmed, Landmark.references, Landmark.references, List.filter_filter]
  congr 1
  refine List.filter_congr fun word _ => ?_
  -- The piece of blanks in front of the first word trims to the empty text, which is no name.
  cases known : defined.contains word with
  | false => rfl
  | true =>
      have given : word ≠ "" := by
        rintro rfl
        exact nonempty (List.contains_iff_mem.mp known)
      simp [given]

theorem anchor_landmark (links : LinkTable) (swatch : Swatch) {name : Text} (bare : trimmed name = name) :
    landmarksOf [⟨anchorRole links name, swatch, name⟩] = [Landmark.anchor links name] := by
  rw [Landmark.anchor, anchorRole]
  cases links.get? name with
  | none => simp [landmarksOf, Element.landmark?, bare]
  | some link =>
      cases given : filled link.target with
      | none => simp [landmarksOf, Element.landmark?, bare, given]
      | some target => simp [landmarksOf, Element.landmark?, bare, given]

theorem opens_definition_iff {first : Run Style} {rest : Line} (name : first.mark = .production) :
    opensDefinition (marked (first :: rest)) = true ↔ Opens (first :: rest) := by
  cases rest with
  | nil => simp [marked, opensDefinition, Opens]
  | cons second more => simp [marked, opensDefinition, Opens, lead, name]

section Steps
variable {emitter : Emitter} {links : LinkTable} {anchored middle after : List Text}
  {run : Run Mark} {rest : List (Run Mark)} {first later : List Element}

theorem row_elements_cons (shown : emitter.runElements links anchored false run = .ok (first, middle))
    (row : emitter.rowElements links middle rest = .ok (later, after)) :
    emitter.rowElements links anchored (run :: rest) = .ok (first ++ later, after) := by
  simp only [rowElements, shown, row, bind, Except.bind]
  rfl

theorem line_elements_cons
    (shown : emitter.runElements links anchored (opensDefinition (run :: rest)) run = .ok (first, middle))
    (row : emitter.rowElements links middle rest = .ok (later, after)) :
    emitter.lineElements links anchored (run :: rest) = .ok (first ++ later, after) := by
  simp only [lineElements, shown, row, bind, Except.bind]
  rfl

theorem page_lines_cons {line : List (Run Mark)} {lines : List (List (Run Mark))}
    (shown : emitter.lineElements links anchored line = .ok (first, after)) :
    emitter.pageLines links anchored (line :: lines) =
      (first :: ·) <$> emitter.pageLines links after lines := by
  simp only [pageLines, shown, bind, Except.bind]
  cases emitter.pageLines links after lines <;> rfl

end Steps

section Full
variable {emitter : Emitter} (full : ∀ style, (emitter.settings.palette style).isSome)
  (nonempty : ("" : Text) ∉ emitter.defined) (links : LinkTable) (anchored : List Text)
include full

/-- A run that is not in the style of productions shows no name. -/
theorem run_elements_other (opens : Bool) {run : Run Style} (other : run.mark ≠ .production) :
    ∃ elements, emitter.runElements links anchored opens ⟨run.text, .style run.mark⟩ =
      .ok (elements, anchored) ∧ landmarksOf elements = [] := by
  obtain ⟨swatch, found⟩ := Option.isSome_iff_exists.mp (full run.mark)
  refine ⟨[⟨.plain, swatch, run.text⟩], ?_, rfl⟩
  simp [runElements, swatch?, found, other]

theorem run_elements_anchor {name : Text} (word : IsWord name) (known : name ∈ emitter.defined)
    (new : name ∉ anchored) :
    ∃ elements, emitter.runElements links anchored true ⟨name, .style .production⟩ =
        .ok (elements, name :: anchored) ∧
      landmarksOf elements = [Landmark.anchor links name] := by
  obtain ⟨swatch, found⟩ := Option.isSome_iff_exists.mp (full .production)
  have some : emitter.defined ≠ [] := List.ne_nil_of_mem known
  refine ⟨[⟨anchorRole links name, swatch, name⟩], ?_, ?_⟩
  · simp [runElements, swatch?, found, word.trimmed, known, new, some]
  · exact anchor_landmark links swatch word.trimmed

include nonempty

/-- The names in a run that defines nothing new are references. -/
theorem run_elements_words {opens : Bool} {run : Run Style}
    (closed : run.mark = .production → opens = true → trimmed run.text ∈ anchored) :
    ∃ elements, emitter.runElements links anchored opens ⟨run.text, .style run.mark⟩ =
        .ok (elements, anchored) ∧
      landmarksOf elements = Landmark.references emitter.defined run.names := by
  by_cases name : run.mark = .production
  · obtain ⟨swatch, found⟩ := Option.isSome_iff_exists.mp (full run.mark)
    -- Where nothing is defined the run is shown whole, and there was no name to find in it.
    by_cases some : emitter.defined.isEmpty = true
    · refine ⟨[⟨.plain, swatch, run.text⟩], ?_, ?_⟩
      · simp [runElements, swatch?, found, some]
      · rw [List.isEmpty_iff.mp some, Landmark.references, List.filter_eq_nil_iff.mpr (by simp)]
        rfl
    · refine ⟨wordElements emitter.defined swatch "" (wordsOf run.text), ?_, ?_⟩
      · have skip : (opens && emitter.defined.contains (trimmed run.text)
            && !anchored.contains (trimmed run.text)) = false := by
          cases opens with
          | false => rfl
          | true => simp [closed name rfl]
        rw [name] at found
        simp only [runElements, swatch?, found, Option.map_some, name, skip]
        simp [some]
      · rw [word_landmarks, words_defined nonempty, Run.names, if_pos name]
  · obtain ⟨elements, shown, none⟩ := run_elements_other full links anchored opens name
    exact ⟨elements, shown, by simp [none, Run.names, name, Landmark.references]⟩

theorem row_elements_words (line : Line) :
    ∃ elements, emitter.rowElements links anchored (marked line) = .ok (elements, anchored) ∧
      landmarksOf elements = Landmark.references emitter.defined (lineNames line) := by
  induction line with
  | nil => exact ⟨[], rfl, rfl⟩
  | cons run rest ih =>
      obtain ⟨first, shown, found⟩ :=
        @run_elements_words emitter full nonempty links anchored false run (by simp)
      obtain ⟨later, row, others⟩ := ih
      refine ⟨first ++ later, ?_, ?_⟩
      · exact row_elements_cons shown row
      · rw [landmarks_of_append, found, others, ← Landmark.references_append]
        rfl

/-- A line that defines nothing new has the names of its runs as references. -/
theorem line_elements_words {line : Line}
    (closed : ∀ first ∈ line.head?, Opens line → trimmed first.text ∈ anchored) :
    ∃ elements, emitter.lineElements links anchored (marked line) = .ok (elements, anchored) ∧
      landmarksOf elements = Landmark.references emitter.defined (lineNames line) := by
  cases line with
  | nil => exact ⟨[], rfl, rfl⟩
  | cons run rest =>
      obtain ⟨first, shown, found⟩ := run_elements_words full nonempty links anchored
        fun name opens => closed run rfl ((opens_definition_iff name).mp opens)
      obtain ⟨later, row, others⟩ := row_elements_words full nonempty links anchored rest
      refine ⟨first ++ later, line_elements_cons shown row, ?_⟩
      rw [landmarks_of_append, found, others, ← Landmark.references_append]
      rfl

/-- A line that opens with a new name has an anchor for it in front of its references. -/
theorem line_elements_anchor {name : Text} {second : Run Style} {more : Line} (word : IsWord name)
    (known : name ∈ emitter.defined) (new : name ∉ anchored) (colon : lead second.text = some (.char ':')) :
    ∃ elements, emitter.lineElements links anchored (marked (⟨name, .production⟩ :: second :: more)) =
        .ok (elements, name :: anchored) ∧
      landmarksOf elements = Landmark.anchor links name ::
        Landmark.references emitter.defined (lineNames (second :: more)) := by
  obtain ⟨first, shown, found⟩ := run_elements_anchor full links anchored word known new
  obtain ⟨later, row, others⟩ :=
    row_elements_words full nonempty links (name :: anchored) (second :: more)
  have opens : opensDefinition (marked (⟨name, .production⟩ :: second :: more)) = true :=
    (opens_definition_iff rfl).mpr ⟨rfl, colon⟩
  refine ⟨first ++ later, line_elements_cons (by rw [← opens] at shown; exact shown) row, ?_⟩
  rw [landmarks_of_append, found, others]
  rfl

end Full

end Emitter

end GrammarPage
