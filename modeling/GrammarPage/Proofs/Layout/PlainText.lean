import GrammarPage.Proofs.Layout.Relaid
import GrammarPage.Proofs.Text.Lines

/-!
Text that is no grammar. Its stream spells it line by line, and each of its lines is laid out by itself: as one
plain run without the blanks at its end, or as an empty line if it shows nothing.
-/

namespace GrammarPage

/-- A stream as text, with a line feed for each line break. -/
def Item.spelled : Item → Text
  | .token styled => styled.text
  | .lineBreak => "\n"

def spelled (items : List Item) : Text := Text.join (items.map Item.spelled)

/-- A plain line as it is shown. -/
def plainLine (line : Text) : Line := if blank line then [] else [⟨trimmedEnd line, .plainText⟩]

def withoutBlankFirst (lines : List Text) : List Text :=
  if lines.head?.any blank then lines.tail else lines

section Spelled

theorem spelled_append (left right : List Item) : spelled (left ++ right) = spelled left ++ spelled right := by
  simp [spelled]

theorem spelled_line (line : List CodePoint) : spelled (lineItems line) = Text.ofList line ++ "\n" := by
  rw [lineItems]
  split
  · case isTrue empty => simp [spelled, Item.spelled, empty]
  · simp [spelled, Item.spelled, Item.plain]

theorem spelled_lines (lines : List (List CodePoint)) :
    spelled (lines.flatMap lineItems) = Text.join (lines.map fun line => Text.ofList line ++ "\n") := by
  induction lines with
  | nil => rfl
  | cons line rest ih =>
      rw [List.flatMap_cons, spelled_append, spelled_line, ih, List.map_cons, Text.join_cons]

end Spelled

section Shown
variable {line : Text}

theorem trimmed_end_blank (unseen : blank line = true) : trimmedEnd line = "" := by
  apply Text.to_list_inj.mp
  rw [trimmed_end_chars, List.rdropWhile_eq_nil_iff.mpr (blank_iff.mp unseen)]
  rfl

theorem plain_line_text (line : Text) : lineText (plainLine line) = trimmedEnd line := by
  rw [plainLine]
  split
  · case isTrue unseen =>
      rw [trimmed_end_blank unseen]
      rfl
  · simp [lineText]

theorem plain_line_nil_iff : plainLine line = [] ↔ blank line = true := by
  rw [plainLine]
  split <;> simp [*]

/-- A line shows nothing exactly if it is blank, so what is dropped first can be told from the text. -/
theorem drop_blank_plain (lines : List Text) :
    dropBlankFirst (lines.map plainLine) = (withoutBlankFirst lines).map plainLine := by
  rw [drop_blank_first_exact, withoutBlankFirst]
  cases lines with
  | nil => rfl
  | cons line rest =>
      simp only [List.map_cons, List.head?_cons, Option.some.injEq, plain_line_nil_iff, Option.any_some,
        List.tail_cons]
      split <;> simp [*]

end Shown

section LaidOut

/-- The tokens of a plain line, of which there is one at most. -/
def plainTokens (line : List CodePoint) : List Token :=
  if line = [] then [] else [⟨Text.ofList line, .plainText⟩]

theorem line_items_tokens (line : List CodePoint) :
    lineItems line = (plainTokens line).map .token ++ [.lineBreak] := by
  rw [lineItems, plainTokens]
  split <;> rfl

theorem segment_line_tokens (line : List CodePoint) :
    segmentLine (plainTokens line) = plainLine (Text.ofList line) := by
  rw [plainTokens, plainLine]
  split
  · case isTrue empty =>
      rw [empty]
      rfl
  · cases unseen : blank (Text.ofList line) with
    | true => simp [segmentLine, Token.visible, unseen]
    | false => simp [segmentLine, Token.visible, unseen, shaded, shadedFrom, shade, merged, trimmedLast]

theorem lines_plain (lines : List (List CodePoint)) :
    linesOf (lines.flatMap lineItems) = (withoutBlankFirst (lines.map Text.ofList)).map plainLine := by
  have joined : lines.flatMap lineItems = joinSegments (lines.map plainTokens) [] := by
    simp [joinSegments, List.flatMap_map, ← line_items_tokens]
  have last : segmentLine [] = [] := rfl
  have each : (lines.map plainTokens).map segmentLine = (lines.map Text.ofList).map plainLine := by
    rw [List.map_map, List.map_map]
    exact List.map_congr_left fun line _ => segment_line_tokens line
  rw [joined, lines_of_segments, if_pos last, List.append_nil, each, drop_blank_plain]

end LaidOut

/-- A text has its lines in one way only. Its stream spells them, each with a line feed behind it, and is laid
out as one line for each of them, without the blanks at its end; a blank one is empty, and dropped where it
comes first. -/
theorem plain_text_exact (text : Text) :
    ∃ lines : List Text, (∀ others, Text.InLines text.toList others ↔ others = lines.map Text.toList) ∧
      spelled (plainItems text) = Text.join (lines.map (· ++ "\n")) ∧
      linesOf (plainItems text) = (withoutBlankFirst lines).map plainLine ∧
      (linesOf (plainItems text)).map lineText = (withoutBlankFirst lines).map trimmedEnd := by
  have laidOut := lines_plain (Text.lines text.toList)
  refine ⟨(Text.lines text.toList).map Text.ofList, fun others => ?_, ?_, laidOut, ?_⟩
  · rw [Text.in_lines_iff, List.map_map]
    simp [Function.comp_def]
  · rw [plainItems, spelled_lines, List.map_map]
    rfl
  · rw [plainItems, laidOut, List.map_map]
    exact List.map_congr_left fun line _ => plain_line_text line

end GrammarPage
