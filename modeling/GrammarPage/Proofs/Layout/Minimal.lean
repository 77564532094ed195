import GrammarPage.Proofs.Layout.Leads
import GrammarPage.Proofs.Layout.Painted

/-!
Lines of as few runs as there can be. The styles of neighbouring runs differ and every run shows a character
of its style, so a text that keeps these characters under their styles changes its style at least as often,
however it is divided.
-/

namespace GrammarPage

/-- The characters of tokens, each with the style of the token it comes from. -/
def inked (tokens : List Token) : List (CodePoint × Style) :=
  tokens.flatMap fun token => paint token.text token.style

/-- Every character that is not blank stands in the same place of the whole, in the same style. -/
def Keeps (whole inks : List (CodePoint × Style)) : Prop :=
  ∀ (place : Nat) ink, inks[place]? = some ink → blankInk ink = false → whole[place]? = some ink

/-- The text of a segment, without the blanks at its end, in pieces of one style each, with every visible
character under the style of the token it comes from. -/
structure Divides (segment : List Token) (pieces : Line) : Prop where
  text : lineText pieces = trimmedEnd (Text.join (segment.map (·.text)))
  keeps : Keeps (inked segment) (painted pieces)

/-- A line with no run too many. -/
structure Minimal (segment : List Token) (line : Line) : Prop where
  divides : Divides segment line
  shows : ∀ run ∈ line, blank run.text = false
  apart : line.IsChain fun left right => left.mark ≠ right.mark
  ends : ∀ run ∈ line.getLast?, ∀ c ∈ run.text.toList.getLast?, Text.isBlank c = false
  least : ∀ pieces, Divides segment pieces → line.length ≤ pieces.length

/-- The segments that give a line: all but a first one that shows nothing, and the last, which no line break
ends, only if it shows something. -/
def shownSegments (items : List Item) : List (List Token) :=
  (if (segments items).1.head?.any fun first => !first.any Token.visible then (segments items).1.tail
    else (segments items).1)
    ++ [(segments items).2].filter fun last => last.any Token.visible

section Trimming
variable {line : Line}

theorem blank_of_lead {left right : Text} (same : lead left = lead right) : blank left = blank right := by
  have exact (text : Text) : blank text = true ↔ lead text = none := by
    rw [blank_iff, lead_exact, List.find?_eq_none]
    simp
  rw [Bool.eq_iff_iff, exact, exact, same]

theorem marks_trimmed_last (line : Line) : (trimmedLast line).map (·.mark) = line.map (·.mark) := by
  have marks := congrArg (List.map Prod.snd) (fronts_trimmed_last line)
  rw [List.map_map, List.map_map] at marks
  exact marks

theorem trimmed_last_shows (shows : ∀ run ∈ line, blank run.text = false) :
    ∀ run ∈ trimmedLast line, blank run.text = false := by
  intro run member
  have front : run.front ∈ line.map Run.front :=
    fronts_trimmed_last line ▸ List.mem_map_of_mem member
  obtain ⟨other, inLine, same⟩ := List.mem_map.mp front
  rw [← blank_of_lead (congrArg Prod.fst same)]
  exact shows other inLine

theorem trimmed_last_ends (line : Line) :
    ∀ run ∈ (trimmedLast line).getLast?, ∀ c ∈ run.text.toList.getLast?, Text.isBlank c = false := by
  induction line with
  | nil => intro run member; cases member
  | cons first rest ih =>
      cases rest with
      | nil =>
          intro run member c last
          obtain rfl : ⟨trimmedEnd first.text, first.mark⟩ = run := by simpa [trimmedLast] using member
          rw [trimmed_end_chars] at last
          obtain ⟨some, rfl⟩ := List.mem_getLast?_eq_getLast last
          simpa using List.rdropWhile_last_not Text.isBlank first.text.toList some
      | cons next more =>
          have some := List.cons_ne_nil next more
          rw [trimmed_last_cons first some, List.getLast?_cons_of_ne_nil (trimmed_last_nonempty some)]
          exact ih

end Trimming

/-- Giving styles to a segment keeps the visible characters under the styles they have. -/
theorem shaded_keeps (segment before tokens : List Token) :
    Keeps (inked tokens) (painted (shadedFrom segment before tokens)) := by
  intro place ink found shows
  induction tokens generalizing before place with
  | nil => simp [shadedFrom, painted] at found
  | cons token rest ih =>
      have width (style : Style) : (paint token.text style).length = token.text.toList.length := by
        simp [paint]
      simp only [shadedFrom, painted, List.flatMap_cons] at found
      rw [inked, List.flatMap_cons, List.getElem?_append, width]
      rw [List.getElem?_append, width] at found
      split at found
      · next inside =>
          rw [if_pos inside]
          obtain ⟨c, here, rfl⟩ : ∃ c, token.text.toList[place]? = some c ∧ (c, _) = ink := by
            simpa only [paint, List.getElem?_map, Option.map_eq_some_iff] using found
          -- A token that shows a character is visible, and so it has its own style.
          have visible : token.visible = true := by
            rw [Token.visible, visible_iff.mpr ⟨c, List.mem_of_getElem? here, shows⟩]
            rfl
          simp [paint, here, shade, visible]
      · next outside =>
          rw [if_neg outside]
          exact ih (before ++ [token]) _ found

theorem segment_line_divides (segment : List Token) : Divides segment (segmentLine segment) where
  text := segment_line_text segment
  keeps place ink found shows := by
    rw [painted_segment_line] at found
    obtain ⟨dropped, whole⟩ := List.rdropWhile_prefix blankInk (painted (shaded segment))
    obtain ⟨inside, -⟩ := List.getElem?_eq_some_iff.mp found
    refine shaded_keeps segment [] segment place ink ?_ shows
    rw [← shaded, ← whole, List.getElem?_append_left inside, found]

section Counting

/-- The styles of the characters that are not blank. -/
def shownStyles (inks : List (CodePoint × Style)) : List Style := (inks.filter (!blankInk ·)).map Prod.snd

theorem shown_styles_append (left right : List (CodePoint × Style)) :
    shownStyles (left ++ right) = shownStyles left ++ shownStyles right := by
  simp [shownStyles]

theorem keeps_tail {whole rest : List (CodePoint × Style)} {ink : CodePoint × Style}
    (keeps : Keeps whole (ink :: rest)) :
    Keeps whole.tail rest := by
  intro place other found shows
  rw [List.getElem?_tail]
  exact keeps (place + 1) other found shows

/-- The same text under the same styles shows the same, whatever the style of its blanks. -/
theorem shown_unique {whole left right : List (CodePoint × Style)} (text : left.map Prod.fst = right.map Prod.fst)
    (own : Keeps whole left) (other : Keeps whole right) :
    left.filter (!blankInk ·) = right.filter (!blankInk ·) := by
  induction left generalizing right whole with
  | nil =>
      obtain rfl : right = [] := by simpa using text.symm
      rfl
  | cons ink left ih =>
      cases right with
      | nil => simp at text
      | cons ink' right =>
          obtain ⟨same, later⟩ : ink.1 = ink'.1 ∧ left.map Prod.fst = right.map Prod.fst := by
            simpa using text
          have blanks : blankInk ink = blankInk ink' := congrArg Text.isBlank same
          have rest := ih later (keeps_tail own) (keeps_tail other)
          cases shows : blankInk ink with
          | true =>
              rw [List.filter_cons_of_neg (by simp [shows]),
                List.filter_cons_of_neg (by simp [← blanks, shows]), rest]
          | false =>
              have first := (own 0 ink rfl shows).symm.trans (other 0 ink' rfl (blanks ▸ shows))
              rw [List.filter_cons_of_pos (by simp [shows]),
                List.filter_cons_of_pos (by simp [← blanks, shows]), rest, Option.some.inj first]

/-- Every run shows its style at least once. -/
theorem marks_shown {line : Line} (shows : ∀ run ∈ line, blank run.text = false) :
    (line.map (·.mark)).Sublist (shownStyles (painted line)) := by
  induction line with
  | nil => exact .slnil
  | cons run rest ih =>
      have here : [run.mark].Sublist (shownStyles (paint run.text run.mark)) := by
        obtain ⟨c, member, visible⟩ := visible_iff.mp (shows run List.mem_cons_self)
        rw [List.singleton_sublist]
        exact List.mem_map.mpr ⟨(c, run.mark), List.mem_filter.mpr
          ⟨List.mem_map_of_mem member, by simp [blankInk, visible]⟩, rfl⟩
      have later := ih fun other member => shows other (List.mem_cons_of_mem run member)
      have pieces : painted (run :: rest) = paint run.text run.mark ++ painted rest := rfl
      rw [pieces, shown_styles_append]
      exact here.append later

theorem shown_styles_piece (piece : Run Style) :
    ∀ style ∈ shownStyles (paint piece.text piece.mark), style = piece.mark := by
  intro style member
  obtain ⟨ink, inPiece, rfl⟩ := List.mem_map.mp member
  obtain ⟨c, -, rfl⟩ := List.mem_map.mp (List.mem_filter.mp inPiece).1
  rfl

/-- Styles that change from each to the next, taken from a text in their order, are in a piece of their own
each. -/
theorem changes_within {pieces : Line} {styles : List Style} (apart : styles.IsChain (· ≠ ·))
    (within : styles.Sublist (shownStyles (painted pieces))) : styles.length ≤ pieces.length := by
  induction pieces generalizing styles with
  | nil =>
      obtain rfl := List.sublist_nil.mp within
      exact Nat.le_refl _
  | cons piece rest ih =>
      have parts : painted (piece :: rest) = paint piece.text piece.mark ++ painted rest := rfl
      rw [parts, shown_styles_append, List.sublist_append_iff] at within
      obtain ⟨front, back, rfl, here, later⟩ := within
      obtain ⟨apartHere, apartLater, -⟩ := List.isChain_append.mp apart
      -- What falls into one piece has its one style, so two neighbours cannot.
      have single : front.length ≤ 1 := by
        match front, here, apartHere with
        | [], _, _ => exact Nat.zero_le _
        | [_], _, _ => exact Nat.le_refl _
        | first :: second :: more, here, apartHere =>
            have firstMark := shown_styles_piece piece first (here.mem (by simp))
            have secondMark := shown_styles_piece piece second (here.mem (by simp))
            exact absurd (firstMark.trans secondMark.symm) apartHere.rel
      calc (front ++ back).length = front.length + back.length := List.length_append
        _ ≤ 1 + rest.length := Nat.add_le_add single (ih apartLater later)
        _ = (piece :: rest).length := Nat.add_comm _ _

theorem divisions_show {segment : List Token} {left right : Line} (own : Divides segment left)
    (other : Divides segment right) : shownStyles (painted left) = shownStyles (painted right) := by
  have text : (painted left).map Prod.fst = (painted right).map Prod.fst := by
    rw [painted_text, painted_text, own.text, other.text]
  rw [shownStyles, shown_unique text own.keeps other.keeps, shownStyles]

end Counting

theorem segment_minimal (segment : List Token) : Minimal segment (segmentLine segment) := by
  have divides := segment_line_divides segment
  cases found : segment.find? Token.visible with
  | none =>
      rw [segment_line_blank found] at divides ⊢
      exact ⟨divides, by simp, .nil, by simp, fun _ _ => Nat.zero_le _⟩
  | some first =>
      have shows := trimmed_last_shows (segment_visible found)
      have apart : ((trimmedLast (merged (shaded segment))).map (·.mark)).IsChain (· ≠ ·) := by
        rw [marks_trimmed_last, List.isChain_map]
        exact merged_distinct (shaded segment)
      rw [segment_line_seen found] at divides ⊢
      refine ⟨divides, shows, (List.isChain_map _).mp apart, trimmed_last_ends _, fun pieces other => ?_⟩
      have within := divisions_show divides other ▸ marks_shown shows
      simpa using changes_within apart within

theorem lines_of_shown (items : List Item) : linesOf items = (shownSegments items).map segmentLine := by
  have first : dropBlankFirst ((segments items).1.map segmentLine) =
      (if (segments items).1.head?.any fun first => !first.any Token.visible then (segments items).1.tail
        else (segments items).1).map segmentLine := by
    rcases (segments items).1 with _ | ⟨first, more⟩
    · rfl
    · cases seen : first.any Token.visible with
      | false => simp [seen, segment_line_nil_iff.mpr seen, dropBlankFirst]
      | true =>
          have shows : segmentLine first ≠ [] := by simp [segment_line_nil_iff, seen]
          simp [seen, drop_blank_first_shown shows]
  have last : (if segmentLine (segments items).2 = [] then [] else [segmentLine (segments items).2]) =
      ([(segments items).2].filter fun last => last.any Token.visible).map segmentLine := by
    cases seen : (segments items).2.any Token.visible <;> simp [segment_line_nil_iff, seen]
  rw [laid_out_exact, laidOut, shownSegments, List.map_append, first, last]

/-- Each segment that is shown gives one line, in order, and no line has a run too many: every run shows
something, neighbours differ in style, the last run does not end in a blank, and no division of the text
that keeps the visible characters under the styles of their tokens has fewer pieces. -/
theorem lines_minimal (items : List Item) :
    List.Forall₂ Minimal (shownSegments items) (linesOf items) := by
  rw [lines_of_shown, List.forall₂_map_right_iff, List.forall₂_same]
  exact fun segment _ => segment_minimal segment

end GrammarPage
