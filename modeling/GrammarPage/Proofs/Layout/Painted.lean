import GrammarPage.Proofs.Layout.Declared

/-!
What a line shows, character by character. Joining moves no character and changes no style; trimming takes
the blanks at the end of the line and nothing else, because every piece of a line holds a visible
character.
-/

namespace GrammarPage

def paint (text : Text) (style : Style) : List (CodePoint × Style) := text.toList.map (·, style)

/-- Every character of a line, with the style of its run. -/
def painted (line : Line) : List (CodePoint × Style) := line.flatMap fun run => paint run.text run.mark

def blankInk (ink : CodePoint × Style) : Bool := Text.isBlank ink.1

theorem paint_append (left right : Text) (style : Style) :
    paint (left ++ right) style = paint left style ++ paint right style := by
  simp [paint]

theorem paint_visible {text : Text} (style : Style) (visible : blank text = false) :
    ∃ ink ∈ paint text style, blankInk ink = false := by
  obtain ⟨c, member, shows⟩ := visible_iff.mp visible
  exact ⟨(c, style), List.mem_map_of_mem member, shows⟩

theorem paint_trimmed (text : Text) (style : Style) :
    paint (trimmedEnd text) style = (paint text style).rdropWhile blankInk := by
  rw [paint, trimmed_end_chars, paint, drop_right_map]
  rfl

theorem painted_text (line : Line) : (painted line).map Prod.fst = (lineText line).toList := by
  simp [painted, paint, lineText, Text.to_list_join, List.map_flatMap, List.flatMap_map,
    Function.comp_def]

theorem painted_merged (line : Line) : painted (merged line) = painted line := by
  induction line with
  | nil => rfl
  | cons run rest ih =>
      rw [merged]
      cases pieces : merged rest with
      | nil =>
          rw [pieces] at ih
          simp [painted] at ih ⊢
          exact ih
      | cons next more =>
          rw [pieces] at ih
          by_cases same : run.mark = next.mark
          · simp only [painted, List.flatMap_cons, same, ↓reduceIte, paint_append] at ih ⊢
            rw [← ih, List.append_assoc]
          · simp only [painted, List.flatMap_cons, same, ↓reduceIte] at ih ⊢
            rw [ih]

theorem painted_trimmed_last {line : Line} (visible : ∀ run ∈ line, blank run.text = false) :
    painted (trimmedLast line) = (painted line).rdropWhile blankInk := by
  induction line with
  | nil => rfl
  | cons run rest ih =>
      cases rest with
      | nil => simp [trimmedLast, painted, paint_trimmed]
      | cons next more =>
          -- Trimming never gets past the last run, which holds a visible character.
          obtain ⟨ink, member, shows⟩ := paint_visible next.mark (visible next (by simp))
          have later : ink ∈ painted (next :: more) :=
            List.mem_flatMap.mpr ⟨next, by simp, member⟩
          have inner := ih fun run inRest => visible run (List.mem_cons_of_mem _ inRest)
          calc painted (trimmedLast (run :: next :: more))
              = paint run.text run.mark ++ painted (trimmedLast (next :: more)) := rfl
            _ = paint run.text run.mark ++ (painted (next :: more)).rdropWhile blankInk := by rw [inner]
            _ = (painted (run :: next :: more)).rdropWhile blankInk :=
                (drop_right_of_kept later shows).symm

section Visible
variable {text : Text} {style : Style}

theorem merged_visible (tokens : List Token) (visible : blank text = false) :
    ∀ piece ∈ merged (⟨text, style⟩ :: shadedAfter style tokens), blank piece.text = false := by
  induction tokens generalizing text style with
  | nil => simpa [shadedAfter, merged] using visible
  | cons token rest ih =>
      have grown : blank (text ++ token.text) = false := by simp [blank_append, visible]
      cases shows : token.visible with
      | false =>
          simp only [shadedAfter, shows, Bool.false_eq_true, ↓reduceIte, merged_join]
          exact ih grown
      | true =>
          simp only [shadedAfter, shows, ↓reduceIte]
          by_cases same : style = token.style
          · rw [← same, merged_join]
            exact ih grown
          · rw [merged_apart same]
            intro piece member
            rcases List.mem_cons.mp member with rfl | later
            · exact visible
            · exact ih (by simpa [Token.visible] using shows) piece later

/-- A blank beginning is joined to the first visible token, so no piece is blank. -/
theorem merged_visible_from {tokens : List Token} {first : Token}
    (found : tokens.find? Token.visible = some first) :
    ∀ piece ∈ merged (⟨text, first.style⟩ :: shadedAfter first.style tokens),
      blank piece.text = false := by
  induction tokens generalizing text with
  | nil => simp at found
  | cons token rest ih =>
      cases shows : token.visible with
      | false =>
          simp only [shadedAfter, shows, Bool.false_eq_true, ↓reduceIte, merged_join]
          exact ih (by simpa [shows] using found)
      | true =>
          obtain rfl : token = first := by simpa [shows] using found
          simp only [shadedAfter, shows, ↓reduceIte, merged_join]
          have grown : blank (text ++ token.text) = false := by
            simp only [Token.visible, Bool.not_eq_true'] at shows
            simp [blank_append, shows]
          exact merged_visible rest grown

theorem segment_visible {segment : List Token} {first : Token}
    (found : segment.find? Token.visible = some first) :
    ∀ piece ∈ merged (shaded segment), blank piece.text = false := by
  cases segment with
  | nil => simp at found
  | cons token rest =>
      rw [shaded_cons found]
      cases shows : token.visible with
      | false => exact merged_visible_from (by simpa [shows] using found)
      | true =>
          obtain rfl : token = first := by simpa [shows] using found
          exact merged_visible rest (by simpa [Token.visible] using shows)

end Visible

def segmentText (segment : List Token) : List CodePoint := segment.flatMap (·.text.toList)

theorem painted_append (left right : Line) : painted (left ++ right) = painted left ++ painted right :=
  List.flatMap_append

theorem shaded_from_append (segment before left right : List Token) :
    shadedFrom segment before (left ++ right) =
      shadedFrom segment before left ++ shadedFrom segment (before ++ left) right := by
  induction left generalizing before with
  | nil => simp [shadedFrom]
  | cons token left ih => simp [shadedFrom, ih]

/-- Giving styles changes no text. -/
theorem shaded_text (segment before tokens : List Token) :
    (painted (shadedFrom segment before tokens)).map Prod.fst = segmentText tokens := by
  induction tokens generalizing before with
  | nil => rfl
  | cons token rest ih =>
      have here : (paint token.text (shade segment before token)).map Prod.fst = token.text.toList := by
        simp [paint, Function.comp_def]
      simp only [shadedFrom, painted, List.flatMap_cons, List.map_append, here, segmentText]
      exact congrArg _ (ih (before ++ [token]))

theorem shaded_blank (segment before : List Token) {tokens : List Token}
    (unseen : ∀ token ∈ tokens, token.visible = false) :
    ∀ ink ∈ painted (shadedFrom segment before tokens), blankInk ink = true := by
  intro ink member
  have inText : ink.1 ∈ segmentText tokens := by
    rw [← shaded_text segment before tokens]
    exact List.mem_map_of_mem member
  obtain ⟨token, inTokens, inToken⟩ := List.mem_flatMap.mp inText
  have blanks : blank token.text = true := by simpa [Token.visible] using unseen token inTokens
  exact blank_iff.mp blanks ink.1 inToken

theorem shaded_visible (segment before : List Token) {tokens : List Token} {token : Token}
    (member : token ∈ tokens) (visible : token.visible = true) :
    ∃ ink ∈ painted (shadedFrom segment before tokens), blankInk ink = false := by
  obtain ⟨c, inToken, shows⟩ := visible_iff.mp (by simpa [Token.visible] using visible)
  have inText : c ∈ (painted (shadedFrom segment before tokens)).map Prod.fst := by
    rw [shaded_text]
    exact List.mem_flatMap.mpr ⟨token, member, inToken⟩
  obtain ⟨ink, inInk, rfl⟩ := List.mem_map.mp inText
  exact ⟨ink, inInk, shows⟩

/-- A line shows what its segment shows, without the blanks at the end. -/
theorem painted_segment_line (segment : List Token) :
    painted (segmentLine segment) = (painted (shaded segment)).rdropWhile blankInk := by
  cases found : segment.find? Token.visible with
  | none =>
      have unseen : ∀ token ∈ segment, token.visible = false := by simpa using found
      rw [segment_line_blank found, shaded,
        List.rdropWhile_eq_nil_iff.mpr (shaded_blank segment [] unseen)]
      rfl
  | some first =>
      rw [segment_line_seen found, painted_trimmed_last (segment_visible found), painted_merged]

theorem segment_line_text (segment : List Token) :
    lineText (segmentLine segment) = trimmedEnd (Text.join (segment.map (·.text))) := by
  have joined : (Text.join (segment.map (·.text))).toList = segmentText segment := by
    simp [Text.to_list_join, segmentText, List.flatMap_map]
  apply Text.to_list_inj.mp
  rw [← painted_text, painted_segment_line, trimmed_end_chars, joined,
    ← shaded_text segment [] segment, drop_right_map]
  rfl

/-- A visible token keeps its place and its style; only blanks at the end of the line are lost. -/
theorem segment_line_token (before after : List Token) {token : Token}
    (visible : token.visible = true) :
    ∃ left right, painted (segmentLine (before ++ token :: after)) =
      left ++ paint (if after.any Token.visible then token.text else trimmedEnd token.text) token.style
        ++ right ∧
      left.map Prod.fst = segmentText before := by
  let segment := before ++ token :: after
  let left := painted (shadedFrom segment [] before)
  let right := painted (shadedFrom segment (before ++ [token]) after)
  have pieces : painted (shaded segment) = left ++ (paint token.text token.style ++ right) := by
    rw [shaded, shaded_from_append, painted_append, List.nil_append, shadedFrom, shade, if_pos visible]
    rfl
  refine ⟨left, right.rdropWhile blankInk, ?_, shaded_text _ _ _⟩
  rw [painted_segment_line, pieces]
  -- The token keeps its own blanks unless nothing after it shows.
  cases later : after.any Token.visible with
  | true =>
      obtain ⟨other, member, shows⟩ := List.any_eq_true.mp later
      obtain ⟨ink, inRight, kept⟩ :=
        shaded_visible segment (before ++ [token]) member shows
      rw [← List.append_assoc, drop_right_of_kept inRight kept]
      rfl
  | false =>
      have unseen : ∀ other ∈ after, other.visible = false := by simpa using later
      have blanks : ∀ ink ∈ right, blankInk ink = true := shaded_blank _ _ unseen
      obtain ⟨ink, inToken, kept⟩ :=
        paint_visible token.style (by simpa [Token.visible] using visible : blank token.text = false)
      rw [drop_right_of_kept (List.mem_append_left right inToken) kept, drop_right_of_all blanks,
        List.rdropWhile_eq_nil_iff.mpr blanks, List.append_nil, ← paint_trimmed]
      rfl

/-- The one-pass layout gives the lines that are declared for the segments of the stream: each shows the
text of its segment without the blanks at its end, and every visible token under its own style. -/
theorem lines_laid_out (items : List Item) :
    linesOf items = laidOut items ∧
    ∀ segment,
      lineText (segmentLine segment) = trimmedEnd (Text.join (segment.map (·.text))) ∧
      ∀ before token after, segment = before ++ token :: after → token.visible = true →
        ∃ left right, painted (segmentLine segment) =
          left ++ paint (if after.any Token.visible then token.text else trimmedEnd token.text) token.style
            ++ right ∧
          left.map Prod.fst = segmentText before := by
  refine ⟨laid_out_exact items, fun segment => ⟨segment_line_text segment, ?_⟩⟩
  rintro before token after rfl visible
  exact segment_line_token before after visible

theorem lines_laid_out_indented :
    let before : List Token := [⟨"\t", .plainText⟩]
    let token : Token := ⟨"A ", .production⟩
    let after : List Token := [⟨" ", .comment⟩]
    let segment := before ++ token :: after
    let items := Item.lineBreak :: segment.map Item.token
    linesOf items = laidOut items ∧ token.visible = true ∧
      lineText (segmentLine segment) = trimmedEnd (Text.join (segment.map (·.text))) ∧
      ∃ left right, painted (segmentLine segment) =
        left ++ paint (if after.any Token.visible then token.text else trimmedEnd token.text) token.style
          ++ right ∧
        left.map Prod.fst = segmentText before := by
  intro before token after segment items
  obtain ⟨lines, segments⟩ := lines_laid_out items
  have visible : token.visible = true := by decide
  exact ⟨lines, visible, (segments segment).1, (segments segment).2 before token after rfl visible⟩

end GrammarPage
