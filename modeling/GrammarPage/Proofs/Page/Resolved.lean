import GrammarPage.Proofs.Page.Emitted
import GrammarPage.Proofs.Page.Linked

/-!
Where the references on a page lead. Every reference is to a name of the grammar, and it finds an element if
one of the productions of that name has a body. A name may be given to a comment alone, though, and then
nothing on the page has it as its identity.
-/

namespace GrammarPage

namespace Landmark

/-- What has no identity is a reference to one of these names. -/
def Refers (defined : List Text) (landmark : Landmark) : Prop :=
  landmark.id = none → ∃ name ∈ defined, landmark.href = some ("#" ++ name)

theorem reference_ids (defined names : List Text) : (references defined names).filterMap Landmark.id = [] := by
  simp [references, reference]

theorem references_refer (defined names : List Text) :
    ∀ landmark ∈ references defined names, landmark.Refers defined := by
  intro landmark member nameless
  obtain ⟨name, kept, rfl⟩ := List.mem_map.mp member
  exact ⟨name, List.contains_iff_mem.mp (List.mem_filter.mp kept).2, rfl⟩

end Landmark

/-- The identities that elements have, in their order. -/
def idsOf (elements : List Element) : List Text := (landmarksOf elements).filterMap Landmark.id

theorem ids_of_append (left right : List Element) : idsOf (left ++ right) = idsOf left ++ idsOf right := by
  rw [idsOf, landmarks_of_append, List.filterMap_append]
  rfl

namespace Emitter

theorem anchor_role_landmark (links : LinkTable) (name : Text) (swatch : Swatch) (text : Text) :
    ∃ target, landmarksOf [⟨anchorRole links name, swatch, text⟩] =
      [⟨some name, target, trimmed text⟩] := by
  rw [anchorRole]
  split
  · exact ⟨none, rfl⟩
  · split
    · exact ⟨none, rfl⟩
    · exact ⟨some _, rfl⟩

section Emitted
variable {emitter : Emitter} {links : LinkTable} {anchored after : List Text} {run : Run Mark}
  {line : List (Run Mark)} {lines : List (List (Run Mark))} {elements : List Element}
  {rows : List (List Element)}

/-- The names anchored are those anchored before and the identities shown since. -/
theorem run_anchored (emits : Emits emitter links run anchored elements after) :
    after = (idsOf elements).reverse ++ anchored := by
  cases emits with
  | plain swatch => rfl
  | anchor swatch known =>
      obtain ⟨target, shown⟩ := anchor_role_landmark links (trimmed run.text) swatch run.text
      rw [idsOf, shown]
      rfl
  | words swatch =>
      rw [idsOf, word_landmarks, Landmark.reference_ids]
      rfl

theorem row_anchored (emits : EmitsRow emitter links line anchored elements after) :
    after = (idsOf elements).reverse ++ anchored := by
  induction emits with
  | nil anchored => rfl
  | cons here row ih =>
      rw [ih, run_anchored here, ids_of_append, List.reverse_append, List.append_assoc]

theorem run_refers (emits : Emits emitter links run anchored elements after) :
    ∀ landmark ∈ landmarksOf elements, landmark.Refers emitter.defined := by
  cases emits with
  | plain swatch => exact fun _ member => absurd member List.not_mem_nil
  | anchor swatch known =>
      obtain ⟨target, shown⟩ := anchor_role_landmark links (trimmed run.text) swatch run.text
      intro landmark member nameless
      rw [shown, List.mem_singleton] at member
      simp [member] at nameless
  | words swatch =>
      rw [word_landmarks]
      exact Landmark.references_refer emitter.defined _

theorem lines_refer (emits : EmitsLines emitter links lines anchored rows after) :
    ∀ landmark ∈ landmarksOf rows.flatten, landmark.Refers emitter.defined := by
  intro landmark member
  obtain ⟨element, inRows, found⟩ := List.mem_filterMap.mp member
  exact lines_elements_all
    (fun here element inRun landmark found => run_refers here landmark
      (List.mem_filterMap.mpr ⟨element, inRun, found⟩)) emits element inRows landmark found

end Emitted

section Opening
variable {emitter : Emitter} {links : LinkTable} {anchored after : List Text} {elements : List Element}
  {name : Text} (word : IsWord name) (known : name ∈ emitter.defined)
include word known

theorem run_elements_opening
    (made : emitter.runElements links anchored true ⟨name, .style .production⟩ = .ok (elements, after)) :
    name ∈ after := by
  have some : emitter.defined ≠ [] := List.ne_nil_of_mem known
  cases found : emitter.settings.palette .production with
  | none => simp [runElements, swatch?, found] at made
  | some swatch =>
      by_cases old : name ∈ anchored
      · have emits := run_anchored (run_elements_emits made)
        rw [emits]
        exact List.mem_append_right _ old
      · have new : emitter.runElements links anchored true ⟨name, .style .production⟩ =
            .ok ([⟨anchorRole links name, swatch, name⟩], name :: anchored) := by
          simp [runElements, swatch?, found, word.trimmed, known, old, some]
        cases new.symm.trans made
        exact List.mem_cons_self

/-- A line that opens with a name leaves the name anchored, whether or not it was so before. -/
theorem line_elements_opening {second : Run Style} {more : Line} (colon : lead second.text = some (.char ':'))
    (made : emitter.lineElements links anchored (marked (⟨name, .production⟩ :: second :: more)) =
      .ok (elements, after)) : name ∈ after := by
  have opens : opensDefinition (marked (⟨name, .production⟩ :: second :: more)) = true :=
    (opens_definition_iff rfl).mpr ⟨rfl, colon⟩
  obtain ⟨first, middle, later, here, row, rfl⟩ := line_elements_split made
  have present : name ∈ middle := run_elements_opening word known (opens ▸ here)
  rw [row_anchored (row_elements_emits row)]
  exact List.mem_append_right _ present

end Opening

/-- A name that some line always leaves anchored is an identity on the page. -/
theorem page_lines_identity {emitter : Emitter} {links : LinkTable} {name : Text} {line : List (Run Mark)}
    (anchors : ∀ anchored elements after,
      emitter.lineElements links anchored line = .ok (elements, after) → name ∈ after)
    {lines : List (List (Run Mark))} (member : line ∈ lines) {anchored : List Text}
    {rows : List (List Element)} (made : emitter.pageLines links anchored lines = .ok rows) :
    name ∈ anchored ∨ name ∈ idsOf rows.flatten := by
  induction lines generalizing anchored rows with
  | nil => exact absurd member List.not_mem_nil
  | cons first lines ih =>
      obtain ⟨elements, middle, later, here, below, rfl⟩ := page_lines_split made
      have reached : name ∈ middle ∨ name ∈ idsOf later.flatten := by
        rcases List.mem_cons.mp member with rfl | inLater
        · exact .inl (anchors _ _ _ here)
        · exact ih inLater below
      rw [row_anchored (line_elements_emits here), List.mem_append, List.mem_reverse] at reached
      rw [List.flatten_cons, ids_of_append, List.mem_append]
      rcases reached with (new | old) | further
      · exact .inr (.inl new)
      · exact .inl old
      · exact .inr (.inr further)

end Emitter

theorem mem_drop_blank_first {lines : List Line} {line : Line} (member : line ∈ lines) (shows : line ≠ []) :
    line ∈ dropBlankFirst lines := by
  rcases lines with _ | ⟨_ | ⟨run, rest⟩, lines⟩
  · exact member
  · exact (List.mem_cons.mp member).resolve_left shows
  · exact member

namespace Grammar

/-- A production with a body has a line that opens with its name. -/
theorem opening_line {grammar : Grammar} {production : Production}
    (member : production ∈ grammar.productions) {name : Text} (named : production.name = some name)
    (word : IsWord name) {body : Tree} (bodied : production.body = some body) :
    ∃ second more, (⟨name, .production⟩ :: second :: more : Line) ∈ grammar.lines ∧
      lead second.text = some (.char ':') := by
  obtain ⟨behind, rest, -, whole, -⟩ := Production.segments_bodied bodied
  obtain ⟨second, more, line, colon⟩ := segment_line_opening word.shows behind
  refine ⟨second, more, ?_, colon⟩
  rw [lines_exact]
  refine mem_drop_blank_first (List.mem_map.mpr ⟨_, List.mem_flatMap.mpr ⟨production, member, ?_⟩, line⟩)
    (List.cons_ne_nil _ _)
  rw [whole, named]
  exact List.mem_cons_self

/-- With a colour for every style there is a page. -/
theorem page_total (grammar : Grammar) {settings : Settings}
    (full : ∀ style, (settings.palette style).isSome) : ∃ page, grammar.page settings = .ok page := by
  apply Emitter.page_made_iff.mpr
  intro line inLines run inLine
  obtain ⟨line, -, rfl⟩ := List.mem_map.mp inLines
  obtain ⟨run, -, rfl⟩ := List.mem_map.mp inLine
  obtain ⟨swatch, found⟩ := Option.isSome_iff_exists.mp (full run.mark)
  exact ⟨run.mark, swatch, rfl, found⟩

/-- Every reference on a page is to a name of the grammar, and an element has that name as its identity if
some production of the name has a body. -/
theorem references_resolved {grammar : Grammar} (words : ∀ name ∈ grammar.names, IsWord name)
    {settings : Settings} (full : ∀ style, (settings.palette style).isSome) :
    ∃ page, grammar.page settings = .ok page ∧
      ∀ landmark ∈ Document.landmarks page.markup, landmark.id = none →
        ∃ name ∈ grammar.names, landmark.href = some ("#" ++ name) ∧
          ((∃ production ∈ grammar.productions, production.name = some name ∧ production.body.isSome) →
            ∃ anchor ∈ Document.landmarks page.markup, anchor.id = some name) := by
  obtain ⟨page, made⟩ := grammar.page_total full
  refine ⟨page, made, ?_⟩
  rw [Page.landmarks_markup]
  obtain ⟨shown, -⟩ := Emitter.page_split made
  obtain ⟨after, emits⟩ := Emitter.page_lines_emits shown
  intro landmark member nameless
  obtain ⟨name, known, href⟩ := Emitter.lines_refer emits landmark member nameless
  have inNames : name ∈ grammar.names := mem_defined_iff.mp known
  refine ⟨name, inNames, href, ?_⟩
  rintro ⟨production, inGrammar, named, bodied⟩
  obtain ⟨body, bodied⟩ := Option.isSome_iff_exists.mp bodied
  have word := words name inNames
  obtain ⟨second, more, line, colon⟩ := opening_line inGrammar named word bodied
  have identity := Emitter.page_lines_identity
    (fun _ _ _ here => Emitter.line_elements_opening word known colon here)
    (List.mem_map_of_mem line) shown
  exact List.mem_filterMap.mp (identity.resolve_left List.not_mem_nil)

/-- Two productions of one name; the comment alone neither resolves the name nor stands in the way. -/
theorem references_resolved_commented :
    let grammar : Grammar :=
      ⟨[⟨some "A", none, some "later", false⟩,
        ⟨some "A", some (.repeated .zeroOrMore (.leaf .reference "A" .bare) .bare), none, true⟩],
        none, .empty⟩
    (∀ name ∈ grammar.names, IsWord name) ∧ (∀ style, (Settings.default.palette style).isSome) ∧
      ∃ page, grammar.page .default = .ok page ∧
        ∀ landmark ∈ Document.landmarks page.markup, landmark.id = none →
          landmark.href = some ("#A" : Text) ∧
            ∃ anchor ∈ Document.landmarks page.markup, anchor.id = some ("A" : Text) := by
  intro grammar
  have words : ∀ name ∈ grammar.names, IsWord name := by decide
  have full : ∀ style, (Settings.default.palette style).isSome := by
    intro style
    cases style <;> rfl
  obtain ⟨page, made, resolved⟩ := references_resolved words full
  refine ⟨words, full, page, made, fun landmark member nameless => ?_⟩
  obtain ⟨name, known, href, leads⟩ := resolved landmark member nameless
  obtain rfl : name = "A" := by
    have inNames : name ∈ (["A", "A"] : List Text) := known
    simpa using inNames
  exact ⟨href, leads ⟨_, List.mem_cons_of_mem _ List.mem_cons_self, rfl, rfl⟩⟩

/-- A reference to a name that only a comment has leads nowhere. -/
theorem reference_to_comment_dangles :
    let grammar : Grammar :=
      ⟨[⟨some "A", none, some "doc", false⟩, ⟨some "B", some (.leaf .reference "A" .bare), none, false⟩],
        none, .empty⟩
    (∀ name ∈ grammar.names, IsWord name) ∧ (∀ style, (Settings.default.palette style).isSome) ∧
      ∃ page, grammar.page .default = .ok page ∧
        (⟨none, some "#A", "A"⟩ : Landmark) ∈ Document.landmarks page.markup ∧
        ∀ anchor ∈ Document.landmarks page.markup, anchor.id ≠ some ("A" : Text) := by
  intro grammar
  have words : ∀ name ∈ grammar.names, IsWord name := by decide
  have full : ∀ style, (Settings.default.palette style).isSome := by
    intro style
    cases style <;> rfl
  have legible : grammar.Legible := by
    constructor
    · exact words
    · intro production member body bodied node below
      rcases List.mem_pair.mp member with rfl | rfl
      · cases bodied
      · obtain rfl := Option.some.inj bodied
        obtain rfl := List.mem_singleton.mp below
        exact ⟨by decide, (by decide : IsWord "A")⟩
    · decide
  obtain ⟨page, made, found⟩ := page_landmarks legible full
  have landmarks : grammar.landmarks = [⟨some "B", none, "B"⟩, ⟨none, some "#A", "A"⟩] := by decide
  rw [landmarks] at found
  refine ⟨words, full, page, made, ?_⟩
  rw [Page.landmarks_markup, found]
  decide

end Grammar

end GrammarPage
