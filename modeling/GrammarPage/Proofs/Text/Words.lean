import GrammarPage.Proofs.Text.Trim

/-!
The names in a row of words. A word carries blanks that do not belong to its name; without them the words
are the stretches between blanks, the empty ones left out.
-/

namespace GrammarPage.Text

/-- The stretches of visible characters. -/
def stretches (text : List CodePoint) : List (List CodePoint) := (text.splitOnP isBlank).filter (· ≠ [])

theorem stretches_append_blank (left : List CodePoint) {c : CodePoint} (unseen : isBlank c = true)
    (right : List CodePoint) : stretches (left ++ c :: right) = stretches left ++ stretches right := by
  rw [stretches, List.splitOnP_append_cons left right unseen, List.filter_append]
  rfl

theorem stretches_cons_blank {c : CodePoint} (unseen : isBlank c = true) (rest : List CodePoint) :
    stretches (c :: rest) = stretches rest := by
  have cut := stretches_append_blank [] unseen rest
  simpa [stretches, List.splitOnP_nil] using cut

theorem stretches_blank_append {left : List CodePoint} (unseen : ∀ c ∈ left, isBlank c = true)
    (right : List CodePoint) : stretches (left ++ right) = stretches right := by
  induction left with
  | nil => rfl
  | cons c rest ih =>
      rw [List.cons_append, stretches_cons_blank (unseen c (by simp))]
      exact ih fun d member => unseen d (List.mem_cons_of_mem _ member)

theorem stretches_blank {text : List CodePoint} (unseen : ∀ c ∈ text, isBlank c = true) :
    stretches text = [] := by
  have all := stretches_blank_append unseen []
  rwa [List.append_nil] at all

theorem stretches_append_blanks (left : List CodePoint) {right : List CodePoint}
    (unseen : ∀ c ∈ right, isBlank c = true) : stretches (left ++ right) = stretches left := by
  cases right with
  | nil => rw [List.append_nil]
  | cons c rest =>
      have none : stretches rest = [] :=
        stretches_blank fun d member => unseen d (List.mem_cons_of_mem _ member)
      rw [stretches_append_blank left (unseen c List.mem_cons_self), none, List.append_nil]

theorem stretches_drop_right (text : List CodePoint) :
    stretches (text.rdropWhile isBlank) = stretches text := by
  have blanks : ∀ c ∈ text.rtakeWhile isBlank, isBlank c = true :=
    fun _ member => List.mem_rtakeWhile_imp member
  rw [← stretches_append_blanks (text.rdropWhile isBlank) blanks, List.rdropWhile_append_rtakeWhile]

theorem stretches_visible {name : List CodePoint} (some : name ≠ [])
    (visible : ∀ c ∈ name, isBlank c = false) : stretches name = [name] := by
  rw [stretches, List.splitOnP_eq_singleton (by simpa using visible)]
  simp [some]

theorem stretches_cons_visible {c d : CodePoint} (shows : isBlank c = false) (next : isBlank d = false)
    (rest : List CodePoint) :
    ∃ name more, stretches (d :: rest) = name :: more ∧
      stretches (c :: d :: rest) = (c :: name) :: more := by
  obtain ⟨piece, pieces, cut⟩ := List.exists_cons_of_ne_nil (List.splitOnP_ne_nil isBlank rest)
  refine ⟨d :: piece, pieces.filter (· ≠ []), ?_, ?_⟩
  · simp [stretches, List.splitOnP_cons_eq_if_modifyHead, next, cut]
  · simp [stretches, List.splitOnP_cons_eq_if_modifyHead, shows, next, cut]

theorem trim_blank {text : List CodePoint} (unseen : ∀ c ∈ text, isBlank c = true) : trim text = [] := by
  rw [trim, trimStart, List.dropWhile_eq_nil_iff.mpr unseen]
  rfl

theorem trim_cons_blank {c : CodePoint} (unseen : isBlank c = true) (rest : List CodePoint) :
    trim (c :: rest) = trim rest := by
  simp [trim, trimStart, unseen]

theorem trim_cons_last {c : CodePoint} (shows : isBlank c = false) {rest : List CodePoint}
    (unseen : ∀ d ∈ rest, isBlank d = true) : trim (c :: rest) = [c] := by
  have start : trimStart (c :: rest) = [c] ++ rest := by simp [trimStart, shows]
  rw [trim, start]
  change ([c] ++ rest).rdropWhile isBlank = [c]
  rw [drop_right_of_all unseen, List.rdropWhile_singleton, if_neg (by simp [shows])]

theorem trim_cons_visible {c d : CodePoint} (shows : isBlank c = false) (next : isBlank d = false)
    (rest : List CodePoint) : trim (c :: d :: rest) = c :: trim (d :: rest) := by
  have start : trimStart (c :: d :: rest) = [c] ++ d :: rest := by simp [trimStart, shows]
  have inner : trimStart (d :: rest) = d :: rest := by simp [trimStart, next]
  rw [trim, trim, start, inner]
  change ([c] ++ d :: rest).rdropWhile isBlank = c :: (d :: rest).rdropWhile isBlank
  rw [drop_right_of_kept (List.mem_cons_self) next]
  rfl

theorem trim_cons_some {c : CodePoint} (shows : isBlank c = false) (rest : List CodePoint) :
    trim (c :: rest) ≠ [] := by
  have start : trimStart (c :: rest) = c :: rest := by simp [trimStart, shows]
  rw [trim, start]
  intro none
  have all := List.rdropWhile_eq_nil_iff.mp none c List.mem_cons_self
  simp [shows] at all

theorem trim_visible {text : List CodePoint} (visible : ∀ c ∈ text, isBlank c = false) : trim text = text := by
  have start : trimStart text = text := by
    rw [trimStart, List.dropWhile_eq_self_iff]
    intro some
    simp [visible text[0] (List.getElem_mem some)]
  rw [trim, start]
  change text.rdropWhile isBlank = text
  rw [List.rdropWhile_eq_self_iff]
  intro some
  simp [visible _ (List.getLast_mem some)]

/-- The first word begins where the text begins, and a word that begins with a blank is blank. -/
theorem words_first (c : CodePoint) (rest : List CodePoint) :
    ∃ word more, words (c :: rest) = (c :: word) :: more ∧
      (isBlank c = true → ∀ d ∈ word, isBlank d = true) := by
  induction rest generalizing c with
  | nil => exact ⟨[], [], rfl, by simp⟩
  | cons d rest ih =>
      obtain ⟨word, more, cut, blanks⟩ := ih d
      rw [words, cut]
      by_cases parts : (isBlank c && !isBlank d) = true
      · exact ⟨[], (d :: word) :: more, by simp [parts], by simp⟩
      · refine ⟨d :: word, more, by simpa using parts, fun unseen e member => ?_⟩
        have next : isBlank d = true := by simpa [unseen] using parts
        rcases List.mem_cons.mp member with rfl | later
        · exact next
        · exact blanks next e later

/-- Without the blanks they carry, the words are the stretches of visible characters. -/
theorem words_trimmed (text : List CodePoint) :
    ((words text).map trim).filter (· ≠ []) = stretches text := by
  induction text with
  | nil => simp [words, stretches, List.splitOnP_nil]
  | cons c rest ih =>
      cases rest with
      | nil =>
          cases shows : isBlank c with
          | true => simp [words, trim_blank, stretches_blank, shows]
          | false => simp [words, trim_cons_last shows, stretches_visible, shows]
      | cons d rest =>
          obtain ⟨word, more, cut, blanks⟩ := words_first d rest
          rw [cut] at ih
          rw [words, cut]
          -- A word ends where a blank stands in front of a visible character, so both matter.
          cases shows : isBlank c with
          | true =>
              rw [stretches_cons_blank shows, ← ih]
              cases next : isBlank d with
              | true => simp [next, trim_cons_blank shows]
              | false => simp [next, trim_blank, shows]
          | false =>
              cases next : isBlank d with
              | true =>
                  have unseen : ∀ e ∈ d :: word, isBlank e = true := by
                    simpa [next] using blanks next
                  have later : stretches (c :: d :: rest) = [c] :: stretches (d :: rest) := by
                    rw [stretches_cons_blank next, ← List.singleton_append,
                      stretches_append_blank [c] next, stretches_visible (by simp) (by simpa using shows)]
                    rfl
                  rw [later, ← ih]
                  simp [trim_cons_last shows unseen, trim_blank unseen]
              | false =>
                  obtain ⟨name, others, one, both⟩ := stretches_cons_visible shows next rest
                  have kept : trim (d :: word) ≠ [] := trim_cons_some next word
                  rw [one, List.map_cons, List.filter_cons_of_pos (by simpa using kept)] at ih
                  obtain ⟨same, later⟩ := List.cons.inj ih
                  rw [both, ← same, ← later]
                  simp [trim_cons_visible shows next]

end GrammarPage.Text
