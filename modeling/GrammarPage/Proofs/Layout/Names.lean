import Mathlib.Data.List.Chain
import GrammarPage.Proofs.Layout.Segments
import GrammarPage.Proofs.Text.Words

/-!
The names in a line. A run in the style of productions may hold several names and blanks of other tokens;
the names of a line are still those of the tokens that were laid out in it, as long as no two names follow
each other without something between them.
-/

namespace GrammarPage

/-- A text that is one word. -/
structure IsWord (text : Text) : Prop where
  given : text ≠ ""
  visible : ∀ c ∈ text.toList, Text.isBlank c = false

theorem is_word_iff {text : Text} :
    IsWord text ↔ text ≠ "" ∧ text.toList.all (!Text.isBlank ·) = true := by
  rw [List.all_eq_true]
  constructor
  · rintro ⟨given, visible⟩
    exact ⟨given, fun c member => by simp [visible c member]⟩
  · rintro ⟨given, visible⟩
    exact ⟨given, fun c member => by simpa using visible c member⟩

instance (text : Text) : Decidable (IsWord text) := decidable_of_iff _ is_word_iff.symm

namespace IsWord
variable {text : Text} (word : IsWord text)
include word

theorem shows : blank text = false := by
  obtain ⟨c, member⟩ := List.exists_mem_of_ne_nil text.toList (by simpa using word.given)
  exact visible_iff.mpr ⟨c, member, word.visible c member⟩

theorem trimmed : trimmed text = text := by
  rw [GrammarPage.trimmed, Text.trim_visible word.visible, Text.of_list_to_list]

end IsWord

def wordNames (text : Text) : List Text := (Text.stretches text.toList).map Text.ofList

theorem word_names_blank {text : Text} (unseen : blank text = true) : wordNames text = [] := by
  rw [wordNames, Text.stretches_blank (blank_iff.mp unseen)]
  rfl

theorem word_names_word {text : Text} (word : IsWord text) : wordNames text = [text] := by
  rw [wordNames, Text.stretches_visible (by simpa using word.given) word.visible]
  simp

theorem word_names_trimmed_end (text : Text) : wordNames (trimmedEnd text) = wordNames text := by
  rw [wordNames, trimmed_end_chars, Text.stretches_drop_right]
  rfl

/-- Words on both sides of a blank stay apart. -/
theorem word_names_append {left right : Text}
    (parted : blank left = true ∨ right.toList.head?.any Text.isBlank = true) :
    wordNames (left ++ right) = wordNames left ++ wordNames right := by
  rcases parted with unseen | starts
  · rw [word_names_blank unseen, wordNames, Text.to_list_append,
      Text.stretches_blank_append (blank_iff.mp unseen)]
    rfl
  · obtain ⟨c, first, gap⟩ := (Option.any_eq_true _ _).mp starts
    obtain ⟨rest, cut⟩ := List.head?_eq_some_iff.mp first
    rw [wordNames, wordNames, wordNames, Text.to_list_append, cut,
      Text.stretches_append_blank left.toList gap, Text.stretches_cons_blank gap, List.map_append]

namespace Run

def names (run : Run Style) : List Text :=
  if run.mark = .production then wordNames run.text else []

end Run

def lineNames (line : Line) : List Text := line.flatMap Run.names

def tokenNames (tokens : List Token) : List Text :=
  (tokens.filter fun token => token.style = .production).map Token.text

theorem token_names_append (left right : List Token) :
    tokenNames (left ++ right) = tokenNames left ++ tokenNames right := by
  simp [tokenNames]

namespace Token

def Sound (token : Token) : Prop :=
  if token.style = .production then IsWord token.text else token.text ≠ ""

def Apart (left right : Token) : Prop := ¬ (left.style = .production ∧ right.style = .production)

theorem visible_of_sound {token : Token} (sound : token.Sound) (name : token.style = .production) :
    token.visible = true := by
  rw [Sound, if_pos name] at sound
  rw [visible, sound.shows]
  rfl

end Token

theorem starts_blank_append {left : Text} (right : Text)
    (starts : left.toList.head?.any Text.isBlank = true) :
    (left ++ right).toList.head?.any Text.isBlank = true := by
  obtain ⟨c, first, gap⟩ := (Option.any_eq_true _ _).mp starts
  rw [Text.to_list_append, List.head?_append, first]
  exact gap

theorem starts_blank {text : Text} (some : text ≠ "") (unseen : blank text = true) :
    text.toList.head?.any Text.isBlank = true := by
  obtain ⟨c, rest, cut⟩ := List.exists_cons_of_ne_nil (by simpa using some : text.toList ≠ [])
  simp [cut, blank_iff.mp unseen c (by simp [cut])]

/-- Joining a run to the next keeps its names if a name of the next does not begin where the run ends. -/
theorem names_merged_cons {text : Text} {style : Style} {rest : Line}
    (parted : style = .production → blank text = true ∨
      ∀ next ∈ rest.head?, next.mark = .production → next.text.toList.head?.any Text.isBlank = true) :
    lineNames (merged (⟨text, style⟩ :: rest)) =
      Run.names ⟨text, style⟩ ++ lineNames (merged rest) := by
  cases rest with
  | nil => simp [merged, lineNames]
  | cons next rest =>
      obtain ⟨after, other⟩ := next
      obtain ⟨ending, more, head⟩ := @merged_head after other rest
      -- Only runs of one style become one text, in which words could grow together.
      by_cases same : style = other
      · subst same
        have joined : merged (⟨text, style⟩ :: ⟨after, style⟩ :: rest) =
            ⟨text ++ (after ++ ending), style⟩ :: more := by
          rw [merged, head]
          simp
        rw [joined, head]
        by_cases name : style = .production
        · have cut : blank text = true ∨ (after ++ ending).toList.head?.any Text.isBlank = true :=
            (parted name).imp id fun starts =>
              starts_blank_append ending (starts ⟨after, style⟩ rfl name)
          simp [lineNames, Run.names, name, word_names_append cut]
        · simp [lineNames, Run.names, name]
      · simp [merged_apart same, lineNames]

theorem shaded_after_head (style : Style) (tokens : List Token) :
    (shadedAfter style tokens).head? =
      tokens.head?.map fun token => ⟨token.text, if token.visible then token.style else style⟩ := by
  cases tokens <;> rfl

theorem shaded_token_names {token : Token} (sound : token.Sound) (style : Style) :
    Run.names ⟨token.text, if token.visible then token.style else style⟩ = tokenNames [token] := by
  by_cases name : token.style = .production
  · have word : IsWord token.text := by simpa [Token.Sound, name] using sound
    simp [Run.names, tokenNames, Token.visible_of_sound sound name, name, word_names_word word]
  · cases shows : token.visible with
    | true => simp [Run.names, tokenNames, name]
    | false =>
        have unseen : blank token.text = true := by simpa [Token.visible] using shows
        simp [Run.names, tokenNames, name, word_names_blank unseen]

/-- The names of a row of tokens survive the joining, whatever style is current in front of them. -/
theorem names_merged {tokens : List Token} (sound : ∀ token ∈ tokens, token.Sound)
    (apart : tokens.IsChain Token.Apart) (style : Style) :
    lineNames (merged (shadedAfter style tokens)) = tokenNames tokens := by
  induction tokens generalizing style with
  | nil => rfl
  | cons token rest ih =>
      have here : token.Sound := sound token List.mem_cons_self
      have later : ∀ next ∈ rest, next.Sound := fun next member =>
        sound next (List.mem_cons_of_mem _ member)
      rw [shadedAfter, names_merged_cons, ih later apart.tail, shaded_token_names here,
        ← token_names_append, List.singleton_append]
      intro name
      cases shows : token.visible with
      | false => exact .inl (by simpa [Token.visible] using shows)
      | true =>
          -- What follows a name is no name, so it carries on the name's style only if it is blank.
          rw [if_pos shows] at name
          rw [if_pos rfl, shaded_after_head]
          refine .inr fun run found marked => ?_
          obtain ⟨next, first, rfl⟩ := Option.map_eq_some_iff.mp found
          have other : next.style ≠ .production := fun same => apart.rel_head? first ⟨name, same⟩
          have unseen : next.visible = false := by
            cases seen : next.visible with
            | false => rfl
            | true =>
                rw [if_pos seen] at marked
                exact absurd marked other
          have sound := later next (List.mem_of_mem_head? first)
          rw [Token.Sound, if_neg other] at sound
          exact starts_blank sound (by simpa [Token.visible] using unseen)

theorem names_trimmed_last (line : Line) : lineNames (trimmedLast line) = lineNames line := by
  induction line with
  | nil => rfl
  | cons run rest ih =>
      cases rest with
      | nil => simp [trimmedLast, lineNames, Run.names, word_names_trimmed_end]
      | cons next more =>
          calc lineNames (trimmedLast (run :: next :: more))
              = run.names ++ lineNames (trimmedLast (next :: more)) := rfl
            _ = run.names ++ lineNames (next :: more) := by rw [ih]
            _ = lineNames (run :: next :: more) := rfl

/-- The names in the line of a segment are the names among its tokens, in their order. -/
theorem names_segment_line {segment : List Token} (sound : ∀ token ∈ segment, token.Sound)
    (apart : segment.IsChain Token.Apart) : lineNames (segmentLine segment) = tokenNames segment := by
  cases found : segment.find? Token.visible with
  | some first =>
      rw [segment_line_seen found, names_trimmed_last, shaded_exact found,
        names_merged sound apart first.style]
  | none =>
      have unseen : ∀ token ∈ segment, ¬ token.visible = true := List.find?_eq_none.mp found
      have nameless : tokenNames segment = [] := by
        rw [tokenNames, List.map_eq_nil_iff, List.filter_eq_nil_iff]
        intro token member name
        exact unseen token member
          (Token.visible_of_sound (sound token member) (by simpa using name))
      rw [segment_line_blank found, nameless]
      rfl

end GrammarPage
