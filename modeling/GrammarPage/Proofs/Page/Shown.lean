import GrammarPage.Proofs.Page.Landmarks

/-!
What the lines of a grammar link. A row of lines is told by the landmarks it shows and by the names that
have an anchor before and after it, whatever lines follow.
-/

namespace GrammarPage

/-- Whatever lines follow, these lines show their landmarks first and leave the names of `after` anchored. -/
def Shows (emitter : Emitter) (links : LinkTable) (anchored : List Text) (lines : List Line)
    (found : List Landmark) (after : List Text) : Prop :=
  ∃ rows : List (List Element), landmarksOf rows.flatten = found ∧
    ∀ rest, emitter.pageLines links anchored (lines.map marked ++ rest) =
      (rows ++ ·) <$> emitter.pageLines links after rest

namespace Shows
variable {emitter : Emitter} {links : LinkTable} {anchored middle after : List Text}
  {lines more : List Line} {found others : List Landmark}

theorem nil : Shows emitter links anchored [] [] anchored :=
  ⟨[], rfl, fun rest => by simp⟩

theorem line {line : Line} {elements : List Element}
    (shown : emitter.lineElements links anchored (marked line) = .ok (elements, after)) :
    Shows emitter links anchored [line] (landmarksOf elements) after := by
  refine ⟨[elements], by simp, fun rest => ?_⟩
  rw [List.map_singleton, List.singleton_append, Emitter.page_lines_cons shown]
  rfl

theorem append (left : Shows emitter links anchored lines found middle)
    (right : Shows emitter links middle more others after) :
    Shows emitter links anchored (lines ++ more) (found ++ others) after := by
  obtain ⟨rows, here, first⟩ := left
  obtain ⟨rows', there, second⟩ := right
  refine ⟨rows ++ rows', by rw [List.flatten_append, landmarks_of_append, here, there], fun rest => ?_⟩
  rw [List.map_append, List.append_assoc, first, second]
  simp [Functor.map_map]

theorem page_lines (shows : Shows emitter links anchored lines found after) :
    ∃ rows, emitter.pageLines links anchored (lines.map marked) = .ok rows ∧
      landmarksOf rows.flatten = found := by
  obtain ⟨rows, here, first⟩ := shows
  refine ⟨rows, ?_, here⟩
  have whole := first []
  rw [List.append_nil] at whole
  rw [whole, Emitter.pageLines]
  exact congrArg Except.ok (List.append_nil rows)

/-- A blank line shows nothing, so the page may do without it. -/
theorem page_lines_drop (shows : Shows emitter links anchored lines found after) :
    ∃ rows, emitter.pageLines links anchored ((dropBlankFirst lines).map marked) = .ok rows ∧
      landmarksOf rows.flatten = found := by
  obtain ⟨rows, page, here⟩ := shows.page_lines
  rcases lines with _ | ⟨_ | ⟨run, line⟩, rest⟩
  · exact ⟨rows, page, here⟩
  · have empty : emitter.lineElements links anchored (marked []) = .ok ([], anchored) := rfl
    rw [List.map_cons, Emitter.page_lines_cons empty] at page
    cases later : emitter.pageLines links anchored (rest.map marked) with
    | error mark => simp [later] at page
    | ok others =>
        rw [later] at page
        obtain rfl : [] :: others = rows := Except.ok.inj page
        exact ⟨others, later, here⟩
  · exact ⟨rows, page, here⟩

end Shows

section Full
variable (emitter : Emitter) (full : ∀ style, (emitter.settings.palette style).isSome)
  (nonempty : ("" : Text) ∉ emitter.defined) (links : LinkTable) (anchored : List Text)
include full nonempty

/-- A segment that opens no production shows its names as references. -/
theorem segment_references {segment : List Token} (ordinary : ∀ token ∈ segment, token.Ordinary)
    (apart : segment.IsChain Token.Apart) :
    Shows emitter links anchored [segmentLine segment]
      (Landmark.references emitter.defined (tokenNames segment)) anchored := by
  have sound : ∀ token ∈ segment, token.Sound := fun token member =>
    Token.sound_of_ordinary (ordinary token member)
  have closed : ¬ Opens (segmentLine segment) := by
    apply segment_line_closed
    intro token later other
    have here := ordinary token (List.mem_of_mem_tail later)
    rw [Token.Ordinary, if_neg other] at here
    exact here.2
  obtain ⟨elements, shown, found⟩ := Emitter.line_elements_words full nonempty links anchored
    (fun _ _ opens => absurd opens closed)
  rw [← names_segment_line sound apart, ← found]
  exact .line shown

theorem segments_references {segments : List (List Token)}
    (ordinary : ∀ segment ∈ segments, ∀ token ∈ segment, token.Ordinary)
    (apart : ∀ segment ∈ segments, segment.IsChain Token.Apart) :
    Shows emitter links anchored (segments.map segmentLine)
      (Landmark.references emitter.defined (tokenNames segments.flatten)) anchored := by
  induction segments with
  | nil => exact .nil
  | cons segment rest ih =>
      have here := segment_references emitter full nonempty links anchored
        (ordinary segment List.mem_cons_self) (apart segment List.mem_cons_self)
      have later := ih (fun other member => ordinary other (List.mem_cons_of_mem _ member))
        (fun other member => apart other (List.mem_cons_of_mem _ member))
      rw [List.flatten_cons, token_names_append, Landmark.references_append]
      exact here.append later

section Opening
variable {behind : List Token} (ordinary : ∀ token ∈ behind, token.Ordinary)
include ordinary

omit full nonempty in
theorem colon_sound : ∀ token ∈ (⟨":", .plainText⟩ :: behind : List Token), token.Sound := by
  intro token member
  rcases List.mem_cons.mp member with rfl | later
  · simp [Token.Sound]
  · exact Token.sound_of_ordinary (ordinary token later)

/-- A production without a name opens nothing. -/
theorem opening_nameless (apart : (⟨":", .plainText⟩ :: behind : List Token).IsChain Token.Apart) :
    Shows emitter links anchored [segmentLine (⟨"", .production⟩ :: ⟨":", .plainText⟩ :: behind)]
      (Landmark.references emitter.defined (tokenNames behind)) anchored := by
  have shows : Token.visible ⟨":", .plainText⟩ = true := by decide
  have closed : ¬ Opens (segmentLine (⟨":", .plainText⟩ :: behind)) :=
    segment_line_plain shows (by decide) behind
  obtain ⟨elements, shown, found⟩ := Emitter.line_elements_words full nonempty links anchored
    (fun _ _ opens => absurd opens closed)
  rw [names_segment_line (colon_sound ordinary) apart] at found
  rw [segment_line_empty_cons .production shows]
  exact found ▸ .line shown

variable {name : Text} (word : IsWord name) (known : name ∈ emitter.defined)
  (apart : (⟨name, .production⟩ :: ⟨":", .plainText⟩ :: behind : List Token).IsChain Token.Apart)
include word known apart

omit full nonempty known in
theorem opening_names :
    lineNames (segmentLine (⟨name, .production⟩ :: ⟨":", .plainText⟩ :: behind)) =
      name :: tokenNames behind := by
  have sound : ∀ token ∈ (⟨name, .production⟩ :: ⟨":", .plainText⟩ :: behind : List Token),
      token.Sound := by
    intro token member
    rcases List.mem_cons.mp member with rfl | later
    · exact word
    · exact colon_sound ordinary token later
  exact names_segment_line sound apart

/-- A name that is defined for the first time gets its anchor. -/
theorem opening_anchor (new : name ∉ anchored) :
    Shows emitter links anchored [segmentLine (⟨name, .production⟩ :: ⟨":", .plainText⟩ :: behind)]
      (Landmark.anchor links name :: Landmark.references emitter.defined (tokenNames behind))
      (name :: anchored) := by
  have names := opening_names ordinary word apart
  obtain ⟨second, more, line, colon⟩ := segment_line_opening word.shows behind
  obtain ⟨elements, shown, found⟩ :=
    @Emitter.line_elements_anchor emitter full nonempty links anchored name second more word known new colon
  rw [line] at names ⊢
  -- The first run is the name alone, so the names behind it are those of the other runs.
  have parts : lineNames (⟨name, .production⟩ :: second :: more) = name :: lineNames (second :: more) := by
    change Run.names ⟨name, .production⟩ ++ lineNames (second :: more) = _
    rw [Run.names, if_pos rfl, word_names_word word]
    rfl
  have later : lineNames (second :: more) = tokenNames behind :=
    (List.cons.inj (parts.symm.trans names)).2
  rw [← later, ← found]
  exact .line shown

/-- A name that is defined again refers to its first definition. -/
theorem opening_again (old : name ∈ anchored) :
    Shows emitter links anchored [segmentLine (⟨name, .production⟩ :: ⟨":", .plainText⟩ :: behind)]
      (Landmark.reference name :: Landmark.references emitter.defined (tokenNames behind))
      anchored := by
  obtain ⟨second, more, line, colon⟩ := segment_line_opening word.shows behind
  have first : ∀ run ∈ (segmentLine (⟨name, .production⟩ :: ⟨":", .plainText⟩ :: behind)).head?,
      trimmed run.text ∈ anchored := by
    rw [line]
    rintro run ⟨rfl⟩
    rwa [word.trimmed]
  obtain ⟨elements, shown, found⟩ := Emitter.line_elements_words full nonempty links anchored
    (fun run inLine _ => first run inLine)
  rw [opening_names ordinary word apart, Landmark.references_known known] at found
  exact found ▸ .line shown

end Opening

end Full

end GrammarPage
