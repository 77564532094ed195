import GrammarPage.Proofs.Page.Markup
import GrammarPage.Proofs.Page.Shown

/-!
The links of a grammar's page. They are told from the productions alone: the first production of a name that
has a body is where the name is defined, and every other name shown refers to one.
-/

namespace GrammarPage

namespace Production

/-- The name in front of a body. -/
def opened? (production : Production) : Option Text := production.body.bind fun _ => production.name

/-- The landmarks of a production behind others, which defined the names given. -/
def landmarks (grammar : Grammar) (before : List Text) (production : Production) : List Landmark :=
  match production.body with
  | none => []
  | some body =>
      (production.name.toList.map fun name =>
        if name ∈ before then Landmark.reference name else Landmark.anchor grammar.links name)
        ++ Landmark.references grammar.names (productionTexts body.items)

end Production

namespace Grammar

def landmarksFrom (grammar : Grammar) (before : List Text) : List Production → List Landmark
  | [] => []
  | production :: rest =>
      production.landmarks grammar before
        ++ landmarksFrom grammar (before ++ production.opened?.toList) rest

def landmarks (grammar : Grammar) : List Landmark := grammar.landmarksFrom [] grammar.productions

end Grammar

namespace Grammar

/-- What makes the page of a grammar. -/
abbrev emitter (grammar : Grammar) (settings : Settings) : Emitter :=
  .ofGrammar settings (some grammar)

theorem defined_words {grammar : Grammar} (legible : grammar.Legible) : ("" : Text) ∉ grammar.defined := by
  intro member
  exact (legible.names "" (mem_defined_iff.mp member)).given rfl

theorem landmarks_bodied (grammar : Grammar) (before : List Text) {production : Production}
    {body : Tree} (bodied : production.body = some body) :
    production.landmarks grammar before =
      (production.name.toList.map fun name =>
        if name ∈ before then Landmark.reference name else Landmark.anchor grammar.links name)
        ++ Landmark.references grammar.names (productionTexts body.items) := by
  rw [Production.landmarks, bodied]

theorem references_defined (grammar : Grammar) (names : List Text) :
    Landmark.references grammar.defined names = Landmark.references grammar.names names :=
  Landmark.references_congr (fun _ => mem_defined_iff) names

section Legible
variable {grammar : Grammar} (legible : grammar.Legible) {settings : Settings}
  (full : ∀ style, (settings.palette style).isSome) {production : Production}
  (member : production ∈ grammar.productions) {anchored before : List Text}
  (same : ∀ name, name ∈ anchored ↔ name ∈ before)
include legible

theorem production_apart (member : production ∈ grammar.productions) :
    production.items.IsChain Item.Apart := by
  obtain ⟨front, rest, parts⟩ := List.append_of_mem member
  have inside : production.items <:+: grammar.items :=
    ⟨front.flatMap (·.items), rest.flatMap (·.items), by simp [items, parts]⟩
  exact List.IsChain.infix legible.apart inside

include full member

theorem bodiless_shows (bodiless : production.body = none) :
    Shows (grammar.emitter settings) grammar.links anchored
      ((segments production.items).1.map segmentLine) (production.landmarks grammar before) anchored := by
  have shows := segments_references (grammar.emitter settings) full
    (defined_words legible) grammar.links anchored
    (segments_ordinary (Production.bodiless_ordinary bodiless))
    (segments_apart (production_apart legible member))
  rw [production.texts_segments, Production.texts_bodiless bodiless] at shows
  rw [Production.landmarks, bodiless]
  exact shows

include same in
theorem bodied_shows {body : Tree} (bodied : production.body = some body) :
    ∃ after, Shows (grammar.emitter settings) grammar.links anchored
        ((segments production.items).1.map segmentLine) (production.landmarks grammar before) after ∧
      ∀ name, name ∈ after ↔ name ∈ before ++ production.name.toList := by
  obtain ⟨behind, more, cut, whole, texts⟩ := Production.segments_bodied bodied
  have nonempty := defined_words legible
  have ordinary := segments_ordinary
    (@Production.behind_colon_ordinary production body (legible.nodes production member body bodied))
  have apart := segments_apart (production_apart legible member)
  rw [cut] at ordinary
  rw [whole] at apart
  -- What becomes of the name is settled in the first segment; all later ones only refer.
  have later := fun anchored => segments_references (grammar.emitter settings) full nonempty
    grammar.links anchored
    (fun segment inMore => ordinary segment (List.mem_cons_of_mem _ inMore))
    (fun segment inMore => apart segment (List.mem_cons_of_mem _ inMore))
  have first := ordinary behind List.mem_cons_self
  have firstApart := apart _ List.mem_cons_self
  rw [whole, List.map_cons, landmarks_bodied grammar before bodied, ← references_defined, ← texts,
    Landmark.references_append]
  cases named : production.name with
  | none =>
      rw [named] at firstApart
      have opening := opening_nameless (grammar.emitter settings) full nonempty
        grammar.links anchored first firstApart.tail
      exact ⟨anchored, opening.append (later anchored), by simpa using same⟩
  | some name =>
      rw [named] at firstApart
      have known : name ∈ grammar.names := List.mem_filterMap.mpr ⟨production, member, named⟩
      have word := legible.names name known
      rw [Option.toList_some, List.map_singleton, List.singleton_append]
      by_cases old : name ∈ before
      · have opening := opening_again (grammar.emitter settings) full nonempty
          grammar.links anchored first word (mem_defined_iff.mpr known) firstApart
          ((same name).mpr old)
        rw [if_pos old]
        refine ⟨anchored, opening.append (later anchored), fun other => ?_⟩
        rw [same, List.mem_append, List.mem_singleton]
        constructor
        · exact .inl
        · rintro (early | rfl)
          · exact early
          · exact old
      · have opening := opening_anchor (grammar.emitter settings) full nonempty
          grammar.links anchored first word (mem_defined_iff.mpr known) firstApart
          (fun inAnchored => old ((same name).mp inAnchored))
        rw [if_neg old]
        refine ⟨name :: anchored, opening.append (later (name :: anchored)), fun other => ?_⟩
        rw [List.mem_cons, same, List.mem_append, List.mem_singleton, or_comm]

theorem production_shows (same : ∀ name, name ∈ anchored ↔ name ∈ before) :
    ∃ after, Shows (grammar.emitter settings) grammar.links anchored
        ((segments production.items).1.map segmentLine) (production.landmarks grammar before) after ∧
      ∀ name, name ∈ after ↔ name ∈ before ++ production.opened?.toList := by
  cases bodied : production.body with
  | none =>
      refine ⟨anchored, bodiless_shows legible full member bodied, fun name => ?_⟩
      simp [same, Production.opened?, bodied]
  | some body =>
      obtain ⟨after, shows, names⟩ := bodied_shows legible full member same bodied
      exact ⟨after, shows, by simpa [Production.opened?, bodied] using names⟩

omit member in
theorem productions_show {productions : List Production}
    (members : ∀ production ∈ productions, production ∈ grammar.productions)
    (same : ∀ name, name ∈ anchored ↔ name ∈ before) :
    ∃ after, Shows (grammar.emitter settings) grammar.links anchored
      ((productions.flatMap fun production => (segments production.items).1).map segmentLine)
      (grammar.landmarksFrom before productions) after := by
  -- The emitter keeps its names in an order of its own, so only membership is carried along.
  induction productions generalizing anchored before with
  | nil => exact ⟨anchored, .nil⟩
  | cons production rest ih =>
      obtain ⟨middle, here, names⟩ :=
        production_shows legible full (members production List.mem_cons_self) same
      obtain ⟨after, later⟩ :=
        ih (fun other inRest => members other (List.mem_cons_of_mem _ inRest)) names
      refine ⟨after, ?_⟩
      rw [List.flatMap_cons, List.map_append]
      exact here.append later

omit member in
theorem page_landmarks :
    ∃ page, grammar.page settings = .ok page ∧ landmarksOf page.lines.flatten = grammar.landmarks := by
  obtain ⟨after, shows⟩ := @productions_show grammar legible settings full [] [] grammar.productions
    (fun _ member => member) (fun _ => Iff.rfl)
  obtain ⟨rows, made, found⟩ := shows.page_lines_drop
  rw [← lines_exact] at made
  refine ⟨⟨(grammar.emitter settings).chosenTitle (filled settings.title <|> grammar.name), rows⟩, ?_, found⟩
  rw [page, Emitter.page, made]
  rfl

omit full in
/-- Every text in the style of productions that is the name of a production has one landmark. -/
theorem production_landmark_texts :
    (production.landmarks grammar before).map Landmark.text =
      (productionTexts production.items).filter grammar.names.contains := by
  have refer : ∀ names, (Landmark.references grammar.names names).map Landmark.text =
      names.filter grammar.names.contains := by
    intro names
    simp [Landmark.references, Landmark.reference, Function.comp_def]
  cases bodied : production.body with
  | none =>
      rw [Production.texts_bodiless bodied, Production.landmarks, bodied]
      rfl
  | some body =>
      rw [Production.texts_bodied bodied, landmarks_bodied grammar before bodied, List.map_append, refer]
      cases named : production.name with
      | none =>
          have absent : ¬ grammar.names.contains "" = true := fun present =>
            defined_words legible (mem_defined_iff.mpr (List.contains_iff_mem.mp present))
          rw [Option.getD_none, List.filter_cons_of_neg absent]
          rfl
      | some name =>
          have known : grammar.names.contains name = true :=
            List.contains_iff_mem.mpr (List.mem_filterMap.mpr ⟨production, member, named⟩)
          rw [Option.getD_some, List.filter_cons_of_pos known]
          by_cases old : name ∈ before <;> simp [old, Landmark.reference, Landmark.anchor]

omit full member in
theorem landmark_texts_from {productions : List Production}
    (members : ∀ production ∈ productions, production ∈ grammar.productions) :
    (grammar.landmarksFrom before productions).map Landmark.text =
      (productionTexts (productions.flatMap (·.items))).filter grammar.names.contains := by
  induction productions generalizing before with
  | nil => rfl
  | cons production rest ih =>
      have later := fun other inRest => members other (List.mem_cons_of_mem _ inRest)
      rw [landmarksFrom, List.map_append, ih later, List.flatMap_cons, production_texts_append,
        List.filter_append, production_landmark_texts legible (members production List.mem_cons_self)]

end Legible

theorem production_landmark_ids (grammar : Grammar) (before : List Text) (production : Production) :
    (production.landmarks grammar before).filterMap Landmark.id =
      production.opened?.toList.filter fun name => name ∉ before := by
  have refer : ∀ names, (Landmark.references grammar.names names).filterMap Landmark.id = [] := by
    intro names
    simp [Landmark.references, Landmark.reference]
  cases bodied : production.body with
  | none => simp [Production.landmarks, Production.opened?, bodied]
  | some body =>
      rw [landmarks_bodied grammar before bodied, List.filterMap_append, refer, List.append_nil,
        Production.opened?, bodied, Option.bind_some]
      cases production.name with
      | none => rfl
      | some name => by_cases old : name ∈ before <;> simp [old, Landmark.reference, Landmark.anchor]

/-- The identities are the names of the productions with a body, each once, in their order. -/
theorem landmark_ids_from (grammar : Grammar) (before : List Text) (productions : List Production) :
    (grammar.landmarksFrom before productions).filterMap Landmark.id =
      (firstOccurrences (productions.filterMap (·.opened?))).filter fun name => name ∉ before := by
  induction productions generalizing before with
  | nil => rfl
  | cons production rest ih =>
      rw [landmarksFrom, List.filterMap_append, production_landmark_ids, ih, List.filterMap_cons]
      cases production.opened? with
      | none => simp
      | some name =>
          have again : ((firstOccurrences (rest.filterMap (·.opened?))).filter (· ≠ name)).filter
                (fun other => other ∉ before) =
              (firstOccurrences (rest.filterMap (·.opened?))).filter fun other => other ∉ before ++ [name] := by
            rw [List.filter_filter]
            exact List.filter_congr fun other _ => by simp
          rw [Option.toList_some, ← again]
          simp only [firstOccurrences]
          by_cases old : name ∈ before <;> simp [old]

/-- A legible grammar's document has the landmarks of the grammar and no others: one for every text in the
style of productions that is the name of a production, in their order, and one identity for each name that
has a body. -/
theorem linked_exact {grammar : Grammar} (legible : grammar.Legible) {settings : Settings}
    (full : ∀ style, (settings.palette style).isSome) :
    ∃ page, grammar.page settings = .ok page ∧
      Document.landmarks page.markup = grammar.landmarks ∧
      grammar.landmarks.map Landmark.text =
        (productionTexts grammar.items).filter grammar.names.contains ∧
      grammar.landmarks.filterMap Landmark.id =
        firstOccurrences (grammar.productions.filterMap (·.opened?)) := by
  obtain ⟨page, made, found⟩ := page_landmarks legible full
  refine ⟨page, made, ?_, ?_, ?_⟩
  · rw [Page.landmarks_markup, found]
  · exact landmark_texts_from legible fun _ member => member
  · have ids := landmark_ids_from grammar [] grammar.productions
    rw [landmarks, ids]
    simp

theorem linked_exact_outward :
    let grammar : Grammar :=
      ⟨[⟨some "A", some (.sequence (.leaf .reference "B" ⟨" ", none, false⟩)
          [.leaf .reference "A" ⟨"", none, true⟩, .leaf .extendedTerminal "x" .bare] .bare), none, false⟩,
        ⟨some "B", some (.leaf .terminal ":" .bare), some "b", true⟩],
        none, LinkTable.empty.insert "B" ⟨some "b.html", none⟩⟩
    grammar.Legible ∧ (∀ style, (Settings.default.palette style).isSome) ∧
      ∃ page, grammar.page .default = .ok page ∧
        Document.landmarks page.markup =
          [⟨some "A", none, "A"⟩, ⟨none, some "#B", "B"⟩, ⟨none, some "#A", "A"⟩,
            ⟨some "B", some "b.html", "B"⟩] := by
  intro grammar
  have full : ∀ style, (Settings.default.palette style).isSome := by
    intro style
    cases style <;> rfl
  have legible : grammar.Legible := by
    constructor
    · intro name member
      have known : name ∈ (["A", "B"] : List Text) := member
      rcases List.mem_pair.mp known with rfl | rfl <;> decide
    · intro production member body bodied node below
      rcases List.mem_pair.mp member with rfl | rfl
      · obtain rfl := Option.some.inj bodied
        simp only [Tree.walk, Tree.walkAll, List.mem_cons, List.mem_append, List.not_mem_nil,
          or_false] at below
        rcases below with (rfl | rfl) | rfl | rfl
        · exact ⟨by decide, trivial⟩
        · exact ⟨by decide, (by decide : IsWord "B")⟩
        · exact ⟨by decide, (by decide : IsWord "A")⟩
        · exact ⟨by decide, by decide, by decide⟩
      · obtain rfl := Option.some.inj bodied
        obtain rfl := List.mem_singleton.mp below
        exact ⟨by decide, trivial⟩
    · decide
  obtain ⟨page, made, found, -⟩ := linked_exact legible full
  have landmarks : grammar.landmarks = [⟨some "A", none, "A"⟩, ⟨none, some "#B", "B"⟩,
      ⟨none, some "#A", "A"⟩, ⟨some "B", some "b.html", "B"⟩] := by decide
  exact ⟨legible, full, page, made, found.trans landmarks⟩

end Grammar

end GrammarPage
