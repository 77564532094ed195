import Mathlib.Data.List.Chain
import GrammarPage.Proofs.Text.Words

/-!
A text told word by word: blanks in front, and then words with blanks between them. A text can be told so in
one way only, and the pieces it is cut into are the blanks in front and the words, each with the blanks behind
it.
-/

namespace GrammarPage.Text

/-- A word, and the blanks behind it. -/
structure Word where
  name : List CodePoint
  gap : List CodePoint
  deriving DecidableEq

namespace Word

def chars (word : Word) : List CodePoint := word.name ++ word.gap

structure Sound (word : Word) : Prop where
  some : word.name ≠ []
  visible : ∀ c ∈ word.name, isBlank c = false
  gap : ∀ c ∈ word.gap, isBlank c = true

theorem sound_single {c : CodePoint} (shows : isBlank c = false) {gap : List CodePoint}
    (blanks : ∀ d ∈ gap, isBlank d = true) : Sound ⟨[c], gap⟩ :=
  ⟨List.cons_ne_nil _ _, List.forall_mem_singleton.mpr shows, blanks⟩

end Word

/-- A text with the blanks in front of its words. Between two words there is a blank at least. -/
structure InWords (text front : List CodePoint) (row : List Word) : Prop where
  whole : text = front ++ row.flatMap Word.chars
  front : ∀ c ∈ front, isBlank c = true
  words : ∀ word ∈ row, word.Sound
  apart : row.IsChain fun word _ => word.gap ≠ []

/-- Takes one more character in front. It goes to the blanks or to the word that it stands in front of, or is a
word of its own. -/
def spaced (c : CodePoint) (front : List CodePoint) (row : List Word) : List CodePoint × List Word :=
  if isBlank c then (c :: front, row)
  else match front, row with
    | [], word :: more => ([], ⟨c :: word.name, word.gap⟩ :: more)
    | gap, row => ([], ⟨[c], gap⟩ :: row)

def spacing : List CodePoint → List CodePoint × List Word
  | [] => ([], [])
  | c :: rest => spaced c (spacing rest).1 (spacing rest).2

section Spaced
variable {c : CodePoint} {rest front : List CodePoint} {row : List Word}

theorem spaced_blank (unseen : isBlank c = true) : spaced c front row = (c :: front, row) := by
  unfold spaced
  exact if_pos unseen

theorem spaced_grown (shows : isBlank c = false) (word : Word) :
    spaced c [] (word :: row) = ([], ⟨c :: word.name, word.gap⟩ :: row) := by
  rw [spaced, if_neg (by simp [shows])]

theorem spaced_begun (shows : isBlank c = false) (separate : row ≠ [] → front ≠ []) :
    spaced c front row = ([], ⟨[c], front⟩ :: row) := by
  rw [spaced, if_neg (by simp [shows])]
  rintro word more rfl rfl
  exact separate (List.cons_ne_nil _ _) rfl

theorem apart_cons_iff {word : Word} :
    ((word :: row).IsChain fun word _ => word.gap ≠ []) ↔
      (row ≠ [] → word.gap ≠ []) ∧ row.IsChain fun word _ => word.gap ≠ [] := by
  cases row with
  | nil => simp
  | cons next more => simp

theorem spaced_in_words (inWords : InWords rest front row) (c : CodePoint) :
    InWords (c :: rest) (spaced c front row).1 (spaced c front row).2 := by
  obtain ⟨rfl, blanks, sound, apart⟩ := inWords
  cases shows : isBlank c with
  | true =>
      rw [spaced_blank shows]
      exact ⟨rfl, List.forall_mem_cons.mpr ⟨shows, blanks⟩, sound, apart⟩
  | false =>
      by_cases separate : row ≠ [] → front ≠ []
      · rw [spaced_begun shows separate]
        refine ⟨by simp [Word.chars], List.forall_mem_nil _, ?_, apart_cons_iff.mpr ⟨separate, apart⟩⟩
        exact List.forall_mem_cons.mpr ⟨Word.sound_single shows blanks, sound⟩
      · obtain ⟨some, none⟩ := Classical.not_imp.mp separate
        obtain ⟨word, more, rfl⟩ := List.exists_cons_of_ne_nil some
        obtain rfl := Decidable.not_not.mp none
        obtain ⟨here, later⟩ := List.forall_mem_cons.mp sound
        obtain ⟨behind, tail⟩ := apart_cons_iff.mp apart
        rw [spaced_grown shows]
        refine ⟨by simp [Word.chars], List.forall_mem_nil _, ?_, ?_⟩
        · exact List.forall_mem_cons.mpr
            ⟨⟨List.cons_ne_nil _ _, List.forall_mem_cons.mpr ⟨shows, here.visible⟩, here.gap⟩, later⟩
        · exact apart_cons_iff.mpr ⟨behind, tail⟩

/-- Every way to tell a text word by word comes from one for what its first character stands in front of. -/
theorem in_words_split (inWords : InWords (c :: rest) front row) :
    ∃ behind later, InWords rest behind later ∧ spaced c behind later = (front, row) := by
  obtain ⟨whole, blanks, sound, apart⟩ := inWords
  cases front with
  | cons d front =>
      obtain ⟨rfl, behind⟩ := List.cons.inj whole
      obtain ⟨here, later⟩ := List.forall_mem_cons.mp blanks
      exact ⟨front, row, ⟨behind, later, sound, apart⟩, spaced_blank here⟩
  | nil =>
      cases row with
      | nil => cases whole
      | cons word more =>
          obtain ⟨here, later⟩ := List.forall_mem_cons.mp sound
          obtain ⟨name, gap⟩ := word
          obtain ⟨d, name, rfl⟩ := List.exists_cons_of_ne_nil here.some
          obtain ⟨rfl, behind⟩ := List.cons.inj whole
          obtain ⟨shows, visible⟩ := List.forall_mem_cons.mp here.visible
          obtain ⟨separate, tail⟩ := apart_cons_iff.mp apart
          -- A first word of one character is a word of its own; a longer one is what the rest begins with.
          cases name with
          | nil => exact ⟨gap, more, ⟨behind, here.gap, later, tail⟩, spaced_begun shows separate⟩
          | cons e name =>
              refine ⟨[], ⟨e :: name, gap⟩ :: more, ⟨behind, List.forall_mem_nil _, ?_, ?_⟩,
                spaced_grown shows _⟩
              · exact List.forall_mem_cons.mpr ⟨⟨List.cons_ne_nil _ _, visible, here.gap⟩, later⟩
              · exact apart_cons_iff.mpr ⟨separate, tail⟩

end Spaced

theorem spacing_in_words (text : List CodePoint) : InWords text (spacing text).1 (spacing text).2 := by
  induction text with
  | nil => exact ⟨rfl, List.forall_mem_nil _, List.forall_mem_nil _, .nil⟩
  | cons c rest ih => exact spaced_in_words ih c

theorem spacing_unique {text front : List CodePoint} {row : List Word} (inWords : InWords text front row) :
    spacing text = (front, row) := by
  induction text generalizing front row with
  | nil =>
      obtain ⟨whole, -, sound, -⟩ := inWords
      obtain ⟨rfl, none⟩ := List.append_eq_nil_iff.mp whole.symm
      cases row with
      | nil => rfl
      | cons word more => simp [Word.chars, (sound word List.mem_cons_self).some] at none
  | cons c rest ih =>
      obtain ⟨behind, later, inRest, same⟩ := in_words_split inWords
      rw [spacing, ih inRest, same]

/-- There is one way to tell a text word by word. -/
theorem in_words_iff {text front : List CodePoint} {row : List Word} :
    InWords text front row ↔ spacing text = (front, row) := by
  constructor
  · exact spacing_unique
  · intro same
    have inWords := spacing_in_words text
    rwa [same] at inWords

/-- The blanks in front, if there are any, and the words with the blanks behind them. -/
def wordPieces (front : List CodePoint) (row : List Word) : List (List CodePoint) :=
  (if front = [] then [] else [front]) ++ row.map Word.chars

theorem words_spaced {rest front : List CodePoint} {row : List Word} (inWords : InWords rest front row)
    (cut : words rest = wordPieces front row) (c : CodePoint) :
    words (c :: rest) = wordPieces (spaced c front row).1 (spaced c front row).2 := by
  rw [words, cut]
  cases front with
  | cons d front =>
      have unseen : isBlank d = true := inWords.front d List.mem_cons_self
      cases shows : isBlank c with
      | true => simp [wordPieces, spaced_blank shows, unseen]
      | false => simp [wordPieces, spaced_begun shows, Word.chars]
  | nil =>
      cases row with
      | nil => cases shows : isBlank c <;> simp [wordPieces, spaced_blank, spaced_begun, shows, Word.chars]
      | cons word more =>
          obtain ⟨name, gap⟩ := word
          have here := inWords.words ⟨name, gap⟩ List.mem_cons_self
          obtain ⟨d, name, rfl⟩ := List.exists_cons_of_ne_nil here.some
          have visible : isBlank d = false := here.visible d List.mem_cons_self
          cases shows : isBlank c with
          | true => simp [wordPieces, spaced_blank shows, visible, Word.chars]
          | false => simp [wordPieces, spaced_grown shows, Word.chars]

/-- Without the blanks at its ends, a word with the blanks behind it is the word. -/
theorem trim_word {word : Word} (sound : word.Sound) : trim word.chars = word.name := by
  obtain ⟨name, gap⟩ := word
  obtain ⟨d, name, rfl⟩ := List.exists_cons_of_ne_nil sound.some
  have shows : isBlank d = false := sound.visible d List.mem_cons_self
  have start (rest : List CodePoint) : trimStart (d :: rest) = d :: rest := by simp [trimStart, shows]
  have own := trim_visible sound.visible
  rw [trim, start] at own
  calc trim (d :: name ++ gap)
      = (d :: name ++ gap).rdropWhile isBlank := congrArg trimEnd (start (name ++ gap))
    _ = (d :: name).rdropWhile isBlank := drop_right_of_all sound.gap
    _ = d :: name := own

theorem words_spacing (text : List CodePoint) : words text = wordPieces (spacing text).1 (spacing text).2 := by
  induction text with
  | nil => rfl
  | cons c rest ih => exact words_spaced (spacing_in_words rest) ih c

end GrammarPage.Text
