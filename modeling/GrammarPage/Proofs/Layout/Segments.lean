import GrammarPage.Display.Line
import GrammarPage.Proofs.Text.Trim

/-!
The layout as it is declared: the stream is cut into segments at its line breaks, every token of a segment
is given a style, neighbours of one style are joined, and the end of each line is trimmed. The one-pass
layout gives the same lines.
-/

namespace GrammarPage

def Token.visible (token : Token) : Bool := !blank token.text

/-- The segments that end in a line break, and the tokens after the last line break. -/
def segments : List Item → List (List Token) × List Token
  | [] => ([], [])
  | .lineBreak :: rest => ([] :: (segments rest).1, (segments rest).2)
  | .token token :: rest => match segments rest with
    | ([], last) => ([], token :: last)
    | (first :: more, last) => ((token :: first) :: more, last)

/-- A blank token has the style of the nearest visible token before it, or else that of the first visible
token of the segment. -/
def shade (segment before : List Token) (token : Token) : Style :=
  if token.visible then token.style
  else (((before.filter Token.visible).getLast? <|> segment.find? Token.visible).getD token).style

def shadedFrom (segment before : List Token) : List Token → Line
  | [] => []
  | token :: rest =>
      ⟨token.text, shade segment before token⟩ :: shadedFrom segment (before ++ [token]) rest

def shaded (segment : List Token) : Line := shadedFrom segment [] segment

/-- Joins neighbours of one style. -/
def merged : Line → Line
  | [] => []
  | run :: rest => match merged rest with
    | [] => [run]
    | next :: more =>
        if run.mark = next.mark then ⟨run.text ++ next.text, run.mark⟩ :: more
        else run :: next :: more

def trimmedLast : Line → Line
  | [] => []
  | [run] => [⟨trimmedEnd run.text, run.mark⟩]
  | run :: next :: more => run :: trimmedLast (next :: more)

def segmentLine (segment : List Token) : Line :=
  if segment.any Token.visible then trimmedLast (merged (shaded segment)) else []

def dropBlankFirst : List Line → List Line
  | [] :: rest => rest
  | lines => lines

theorem drop_blank_first_shown {line : Line} (shows : line ≠ []) (rest : List Line) :
    dropBlankFirst (line :: rest) = line :: rest := by
  cases line with
  | nil => exact absurd rfl shows
  | cons run runs => rfl

def laidOut (items : List Item) : List Line :=
  dropBlankFirst ((segments items).1.map segmentLine)
    ++ if segmentLine (segments items).2 = [] then [] else [segmentLine (segments items).2]

section Merging
variable {text next : Text} {style other : Style} {rest : Line}

theorem merged_join :
    merged (⟨text, style⟩ :: ⟨next, style⟩ :: rest) = merged (⟨text ++ next, style⟩ :: rest) := by
  simp only [merged]
  cases merged rest with
  | nil => simp
  | cons run more => by_cases same : style = run.mark <;> simp [same, Text.append_assoc]

theorem merged_head :
    ∃ ending more, merged (⟨text, style⟩ :: rest) = ⟨text ++ ending, style⟩ :: more := by
  simp only [merged]
  cases merged rest with
  | nil => exact ⟨"", [], by simp⟩
  | cons run more =>
      by_cases same : style = run.mark
      · exact ⟨run.text, more, by simp [same]⟩
      · exact ⟨"", run :: more, by simp [same]⟩

theorem merged_apart (apart : style ≠ other) :
    merged (⟨text, style⟩ :: ⟨next, other⟩ :: rest) = ⟨text, style⟩ :: merged (⟨next, other⟩ :: rest) := by
  obtain ⟨ending, more, head⟩ := @merged_head next other rest
  rw [merged, head]
  simp [apart]

theorem merged_nonempty : merged (⟨text, style⟩ :: rest) ≠ [] := by
  obtain ⟨ending, more, head⟩ := @merged_head text style rest
  simp [head]

theorem trimmed_last_cons (run : Run Style) (some : rest ≠ []) :
    trimmedLast (run :: rest) = run :: trimmedLast rest := by
  cases rest with
  | nil => exact absurd rfl some
  | cons next more => rfl

theorem trimmed_last_nonempty (some : rest ≠ []) : trimmedLast rest ≠ [] := by
  match rest, some with
  | [run], _ => exact List.cons_ne_nil _ _
  | run :: next :: more, _ => exact List.cons_ne_nil _ _

end Merging

/-! The style of a token, told by the style that is current in front of it. -/

def shadedAfter (current : Style) : List Token → Line
  | [] => []
  | token :: rest =>
      let style := if token.visible then token.style else current
      ⟨token.text, style⟩ :: shadedAfter style rest

theorem shaded_from_exact {segment : List Token} {first : Token}
    (found : segment.find? Token.visible = some first) (before rest : List Token) :
    shadedFrom segment before rest =
      shadedAfter (((before.filter Token.visible).getLast?.getD first).style) rest := by
  induction rest generalizing before with
  | nil => rfl
  | cons token rest ih =>
      cases visible : token.visible with
      | true => simp [shadedFrom, shadedAfter, shade, visible, ih]
      | false =>
          cases earlier : (before.filter Token.visible).getLast? <;>
            simp [shadedFrom, shadedAfter, shade, visible, ih, found, earlier]

theorem shaded_exact {segment : List Token} {first : Token}
    (found : segment.find? Token.visible = some first) :
    shaded segment = shadedAfter first.style segment := by
  simp [shaded, shaded_from_exact found]

/-- The first token has the style of the first visible one. -/
theorem shaded_cons {token first : Token} {rest : List Token}
    (found : (token :: rest).find? Token.visible = some first) :
    shaded (token :: rest) = ⟨token.text, first.style⟩ :: shadedAfter first.style rest := by
  rw [shaded_exact found, shadedAfter]
  cases shows : token.visible with
  | false => rfl
  | true =>
      obtain rfl : token = first := by simpa [shows] using found
      rfl

theorem segment_line_seen {segment : List Token} {first : Token}
    (found : segment.find? Token.visible = some first) :
    segmentLine segment = trimmedLast (merged (shaded segment)) := by
  have seen : segment.any Token.visible = true :=
    List.any_eq_true.mpr ⟨first, List.mem_of_find?_eq_some found, List.find?_some found⟩
  rw [segmentLine, if_pos seen]

theorem segment_line_cons {token first : Token} {rest : List Token}
    (found : (token :: rest).find? Token.visible = some first) :
    segmentLine (token :: rest) =
      trimmedLast (merged (⟨token.text, first.style⟩ :: shadedAfter first.style rest)) := by
  rw [segment_line_seen found, shaded_cons found]

theorem segment_line_blank {segment : List Token} (none : segment.find? Token.visible = none) :
    segmentLine segment = [] := by
  have unseen : ∀ token ∈ segment, ¬ token.visible = true := List.find?_eq_none.mp none
  rw [segmentLine, if_neg (by simpa using unseen)]

/-- A line is empty exactly if nothing in its segment shows. -/
theorem segment_line_nil_iff {segment : List Token} :
    segmentLine segment = [] ↔ segment.any Token.visible = false := by
  cases seen : segment.any Token.visible with
  | false => simp [segmentLine, seen]
  | true =>
      obtain ⟨token, rest, rfl⟩ : ∃ token rest, segment = token :: rest := by
        cases segment with
        | nil => simp at seen
        | cons token rest => exact ⟨token, rest, rfl⟩
      simp [segmentLine, seen, shaded, shadedFrom, trimmed_last_nonempty merged_nonempty]

theorem segment_line_shows {segment : List Token} {token : Token} (member : token ∈ segment)
    (shows : token.visible = true) : segmentLine segment ≠ [] := by
  rw [Ne, segment_line_nil_iff, Bool.not_eq_false]
  exact List.any_eq_true.mpr ⟨token, member, shows⟩

end GrammarPage
