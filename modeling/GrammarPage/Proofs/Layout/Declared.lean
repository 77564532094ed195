import GrammarPage.Proofs.Layout.Segments

/-!
The one-pass layout against the declared one. A visible pending run stands for the last piece of the line
so far; a blank one stands for tokens that wait for the first visible token of their segment.
-/

namespace GrammarPage

namespace Layout

variable {broken : Bool} {line : Line} {text : Text} {style : Style}

theorem add_visible (visible : blank text = false) (token : Token) :
    add ⟨broken, line, some ⟨text, style⟩⟩ token =
      if !token.visible || style = token.style then
        ⟨broken, line, some ⟨text ++ token.text, style⟩⟩
      else ⟨broken, line ++ [⟨text, style⟩], some ⟨token.text, token.style⟩⟩ := by
  simp only [add, join, visible, Token.visible, Bool.not_not, Bool.false_eq_true, ↓reduceIte]
  split <;> simp

theorem add_blank (unseen : blank text = true) (token : Token) :
    add ⟨broken, line, some ⟨text, style⟩⟩ token =
      ⟨broken, line, some ⟨text ++ token.text, token.style⟩⟩ := by
  simp [add, join, unseen]

/-- Invariant of the loop once the pending run is visible: it is the first piece of what is still to be
joined from it and the tokens to come. -/
theorem flushed_visible (tokens : List Token) (visible : blank text = false) :
    (tokens.foldl add ⟨broken, line, some ⟨text, style⟩⟩).flushed =
      line ++ trimmedLast (merged (⟨text, style⟩ :: shadedAfter style tokens)) := by
  induction tokens generalizing text style line with
  | nil => simp [flushed, visible, shadedAfter, merged, trimmedLast]
  | cons token rest ih =>
      have grown : blank (text ++ token.text) = false := by simp [blank_append, visible]
      rw [List.foldl_cons, add_visible visible]
      cases shows : token.visible with
      | false =>
          simp only [Bool.not_false, Bool.true_or, ↓reduceIte, shadedAfter, shows, Bool.false_eq_true]
          rw [ih grown, merged_join]
      | true =>
          by_cases same : style = token.style
          · simp only [Bool.not_true, Bool.false_or, same, decide_true, ↓reduceIte, shadedAfter, shows]
            rw [ih grown, merged_join]
          · have later : blank token.text = false := by simpa [Token.visible] using shows
            simp only [Bool.not_true, Bool.false_or, same, decide_false, Bool.false_eq_true, ↓reduceIte,
              shadedAfter, shows]
            rw [ih later, merged_apart same, trimmed_last_cons _ merged_nonempty, List.append_assoc,
              List.singleton_append]

/-- Invariant of the loop while the pending run is blank: it takes the style of the first visible token
to come, and shows nothing if none comes. -/
theorem flushed_blank (tokens : List Token) (unseen : blank text = true) :
    (tokens.foldl add ⟨broken, [], some ⟨text, style⟩⟩).flushed =
      match tokens.find? Token.visible with
      | none => []
      | some first => trimmedLast (merged (⟨text, first.style⟩ :: shadedAfter first.style tokens)) := by
  induction tokens generalizing text style with
  | nil => simp [flushed, unseen]
  | cons token rest ih =>
      rw [List.foldl_cons, add_blank unseen, List.find?_cons]
      cases shows : token.visible with
      | false =>
          have still : blank (text ++ token.text) = true := by
            simpa [blank_append, unseen, Token.visible] using shows
          rw [ih still]
          cases rest.find? Token.visible with
          | none => rfl
          | some first => simp only [shadedAfter, shows, Bool.false_eq_true, ↓reduceIte, merged_join]
      | true =>
          have seen : blank (text ++ token.text) = false := by
            simpa [blank_append, unseen, Token.visible] using shows
          rw [flushed_visible rest seen]
          simp only [shadedAfter, shows, ↓reduceIte, merged_join, List.nil_append]

/-- The tokens of a segment, taken up one by one, come out as the line declared for the segment. -/
theorem flushed_segment (segment : List Token) (broken : Bool) :
    (segment.foldl add ⟨broken, [], none⟩).flushed = segmentLine segment := by
  cases segment with
  | nil => rfl
  | cons token rest =>
      have first : add ⟨broken, [], none⟩ token = ⟨broken, [], some ⟨token.text, token.style⟩⟩ := rfl
      rw [List.foldl_cons, first]
      -- The first token is the pending run; which invariant holds from here depends on whether it shows.
      cases shows : token.visible with
      | true =>
          have seen : blank token.text = false := by simpa [Token.visible] using shows
          have found : (token :: rest).find? Token.visible = some token := by simp [shows]
          rw [flushed_visible rest seen, segment_line_cons found, List.nil_append]
      | false =>
          have unseen : blank token.text = true := by simpa [Token.visible] using shows
          have skipped : (token :: rest).find? Token.visible = rest.find? Token.visible := by
            simp [shows]
          rw [flushed_blank rest unseen]
          cases found : rest.find? Token.visible with
          | none => rw [segment_line_blank (skipped.trans found)]
          | some visible => rw [segment_line_cons (skipped.trans found)]

theorem fold_broken (tokens : List Token) (layout : Layout) :
    (tokens.foldl add layout).broken = layout.broken := by
  induction tokens generalizing layout with
  | nil => rfl
  | cons token rest ih =>
      rw [List.foldl_cons, ih]
      unfold add
      split <;> rfl

end Layout

/-- Puts segments together again. -/
def joinSegments (broken : List (List Token)) (last : List Token) : List Item :=
  broken.flatMap (fun segment => segment.map .token ++ [.lineBreak]) ++ last.map .token

theorem join_segments (items : List Item) : joinSegments (segments items).1 (segments items).2 = items := by
  induction items with
  | nil => rfl
  | cons item rest ih =>
      cases item with
      | lineBreak => simpa [segments, joinSegments] using ih
      | token token =>
          rcases cut : segments rest with ⟨broken, last⟩
          rw [cut] at ih
          cases broken with
          | nil => simpa [segments, cut, joinSegments] using ih
          | cons first more => simpa [segments, cut, joinSegments] using ih

theorem lines_from_tokens (layout : Layout) (tokens : List Token) (rest : List Item) :
    linesFrom layout (tokens.map .token ++ rest) = linesFrom (tokens.foldl Layout.add layout) rest := by
  induction tokens generalizing layout with
  | nil => rfl
  | cons token tokens ih => simpa [linesFrom, Layout.step] using ih (layout.add token)

theorem lines_from_segment (broken : Bool) (segment : List Token) (rest : List Item) :
    linesFrom ⟨broken, [], none⟩ (segment.map .token ++ .lineBreak :: rest) =
      (if broken || segmentLine segment ≠ [] then [segmentLine segment] else [])
        ++ linesFrom ⟨true, [], none⟩ rest := by
  rw [lines_from_tokens, linesFrom]
  simp only [Layout.step, Layout.brokenLine, Layout.flushed_segment, Layout.fold_broken]

theorem lines_from_last (broken : Bool) (last : List Token) :
    linesFrom ⟨broken, [], none⟩ (last.map .token) =
      if segmentLine last = [] then [] else [segmentLine last] := by
  have ending := lines_from_tokens ⟨broken, [], none⟩ last []
  rw [List.append_nil] at ending
  simp [ending, linesFrom, Layout.lastLine, Layout.flushed_segment]

theorem join_segments_cons (segment : List Token) (broken : List (List Token)) (last : List Token) :
    joinSegments (segment :: broken) last =
      segment.map .token ++ .lineBreak :: joinSegments broken last := by
  simp [joinSegments]

/-- Once a line break has been seen, every further one gives a line. -/
theorem lines_from_broken (broken : List (List Token)) (last : List Token) :
    linesFrom ⟨true, [], none⟩ (joinSegments broken last) =
      broken.map segmentLine ++ if segmentLine last = [] then [] else [segmentLine last] := by
  induction broken with
  | nil => simpa [joinSegments] using lines_from_last true last
  | cons segment broken ih => simp [join_segments_cons, lines_from_segment, ih]

theorem lines_of_segments (broken : List (List Token)) (last : List Token) :
    linesOf (joinSegments broken last) =
      dropBlankFirst (broken.map segmentLine)
        ++ if segmentLine last = [] then [] else [segmentLine last] := by
  -- Only the first segment can be dropped: behind it a line break has been seen.
  cases broken with
  | nil => simpa [joinSegments, dropBlankFirst, linesOf, Layout.start] using lines_from_last false last
  | cons segment broken =>
      rw [join_segments_cons, linesOf, Layout.start, lines_from_segment, lines_from_broken]
      cases line : segmentLine segment <;> simp [dropBlankFirst, line]

theorem laid_out_exact (items : List Item) : linesOf items = laidOut items := by
  rw [← join_segments items, lines_of_segments, join_segments, laidOut]

end GrammarPage
