import GrammarPage.Proofs.Layout.Minimal

/-!
Lines laid out a second time. Every run of a line shows something, its neighbours are of other styles and the
last run is trimmed, so a line given back run by run has nothing left to join or to trim.
-/

namespace GrammarPage

/-- The stream in which each line stands as the tokens made of it, up to a line break. -/
def restream (tokensIn : Line → List Token) (lines : List Line) : List Item :=
  lines.flatMap fun line => (tokensIn line).map .token ++ [.lineBreak]

/-- One token for each run. -/
def runTokens (line : Line) : List Token := line.map fun run => ⟨run.text, run.mark⟩

/-- A line as the layout gives it: there is nothing left to join or to trim. -/
structure Settled (line : Line) : Prop where
  shows : ∀ run ∈ line, blank run.text = false
  apart : line.IsChain fun left right => left.mark ≠ right.mark
  ends : ∀ run ∈ line.getLast?, ∀ c ∈ run.text.toList.getLast?, Text.isBlank c = false

theorem lines_settled (items : List Item) : ∀ line ∈ linesOf items, Settled line := by
  intro line member
  rw [lines_of_shown] at member
  obtain ⟨segment, -, rfl⟩ := List.mem_map.mp member
  have minimal := segment_minimal segment
  exact ⟨minimal.shows, minimal.apart, minimal.ends⟩

theorem drop_blank_first_exact (lines : List Line) :
    dropBlankFirst lines = if lines.head? = some [] then lines.tail else lines := by
  rcases lines with _ | ⟨_ | ⟨run, more⟩, rest⟩ <;> simp [dropBlankFirst]

/-- Each line of the stream is laid out apart. -/
theorem lines_restreamed (tokensIn : Line → List Token) (lines : List Line) :
    linesOf (restream tokensIn lines) =
      dropBlankFirst (lines.map fun line => segmentLine (tokensIn line)) := by
  have joined : restream tokensIn lines = joinSegments (lines.map tokensIn) [] := by
    simp [restream, joinSegments, List.flatMap_map]
  have last : segmentLine [] = [] := rfl
  rw [joined, lines_of_segments, if_pos last, List.append_nil, List.map_map]
  rfl

section Fixed
variable {line : Line}

theorem shaded_run_tokens (shows : ∀ run ∈ line, blank run.text = false) (style : Style) :
    shadedAfter style (runTokens line) = line := by
  induction line generalizing style with
  | nil => rfl
  | cons run rest ih =>
      have visible : Token.visible ⟨run.text, run.mark⟩ = true := by
        simp [Token.visible, shows run List.mem_cons_self]
      have later := ih (fun other member => shows other (List.mem_cons_of_mem run member)) run.mark
      simp only [runTokens, List.map_cons, shadedAfter, visible, ↓reduceIte] at later ⊢
      rw [later]

theorem merged_apart_line (apart : line.IsChain fun left right => left.mark ≠ right.mark) :
    merged line = line := by
  induction line with
  | nil => rfl
  | cons run rest ih =>
      cases rest with
      | nil => rfl
      | cons next more => rw [merged_apart apart.rel, ih apart.tail]

/-- Trimming leaves a last run alone that does not end in a blank. -/
theorem trimmed_last_fixed
    (ends : ∀ run ∈ line.getLast?, ∀ c ∈ run.text.toList.getLast?, Text.isBlank c = false) :
    trimmedLast line = line := by
  induction line with
  | nil => rfl
  | cons run rest ih =>
      cases rest with
      | nil =>
          have kept : trimmedEnd run.text = run.text := by
            apply Text.to_list_inj.mp
            rw [trimmed_end_chars, List.rdropWhile_eq_self_iff]
            intro some
            simp [ends run rfl _ (List.getLast?_eq_some_getLast some)]
          rw [trimmedLast, kept]
      | cons next more => rw [trimmedLast, ih (by simpa using ends)]

theorem segment_line_runs (settled : Settled line) : segmentLine (runTokens line) = line := by
  cases line with
  | nil => rfl
  | cons run rest =>
      have found : (runTokens (run :: rest)).find? Token.visible = some ⟨run.text, run.mark⟩ := by
        simp [runTokens, Token.visible, settled.shows run List.mem_cons_self]
      rw [segment_line_seen found, shaded_exact found, shaded_run_tokens settled.shows,
        merged_apart_line settled.apart, trimmed_last_fixed settled.ends]

end Fixed

/-- Laid out again run by run, the lines of a stream are the same lines; only an empty one is dropped where it
comes first. -/
theorem lines_relaid (items : List Item) :
    linesOf (restream runTokens (linesOf items)) =
      if (linesOf items).head? = some [] then (linesOf items).tail else linesOf items := by
  have same : (linesOf items).map (fun line => segmentLine (runTokens line)) = linesOf items :=
    (List.map_congr_left fun line member => segment_line_runs (lines_settled items line member)).trans
      (List.map_id _)
  rw [lines_restreamed, same, drop_blank_first_exact]

end GrammarPage
