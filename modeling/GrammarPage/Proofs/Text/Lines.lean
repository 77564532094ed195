import GrammarPage.Text.LineEnd

/-!
A text told line by line. The lines that a text is cut into are the only ones that, each with a line end of
its own behind it, give the text; behind the last line end there is a line only if anything stands there.
-/

namespace GrammarPage.Text

def Unbroken (line : List CodePoint) : Prop := ∀ c ∈ line, c ≠ '\r' ∧ c ≠ '\n'

/-- A line end, with what follows it: a carriage return with a line feed behind it does not stand alone. -/
inductive LineEnd : List CodePoint → List CodePoint → Prop
  | pair (rest : List CodePoint) : LineEnd [.char '\r', .char '\n'] rest
  | feed (rest : List CodePoint) : LineEnd [.char '\n'] rest
  | lone {rest : List CodePoint} (alone : rest.head? ≠ some (.char '\n')) : LineEnd [.char '\r'] rest

/-- A text in its lines. -/
inductive InLines : List CodePoint → List (List CodePoint) → Prop
  | none : InLines [] []
  | last {line : List CodePoint} (some : line ≠ []) (unbroken : Unbroken line) : InLines line [line]
  | ended {line ending rest : List CodePoint} {later : List (List CodePoint)} (unbroken : Unbroken line)
      (ends : LineEnd ending rest) (behind : InLines rest later) :
      InLines (line ++ ending ++ rest) (line :: later)

section Unbroken
variable {line : List CodePoint}

theorem Unbroken.cons {c : CodePoint} (other : c ≠ '\r' ∧ c ≠ '\n') (unbroken : Unbroken line) :
    Unbroken (c :: line) := List.forall_mem_cons.mpr ⟨other, unbroken⟩

theorem split_cons {c : CodePoint} (other : c ≠ '\r' ∧ c ≠ '\n') {rest piece : List CodePoint}
    {more : List (List CodePoint)} (cut : splitLines rest = piece :: more) :
    splitLines (c :: rest) = (c :: piece) :: more := by
  rw [splitLines, if_neg (by simp [endsLine, other]), cut]
  exact fun _ turn _ => other.1 turn

theorem split_unbroken (unbroken : Unbroken line) : splitLines line = [line] := by
  induction line with
  | nil => rfl
  | cons c line ih =>
      obtain ⟨other, later⟩ := List.forall_mem_cons.mp unbroken
      exact split_cons other (ih later)

theorem split_ended (unbroken : Unbroken line) {ending rest : List CodePoint} (ends : LineEnd ending rest) :
    splitLines (line ++ ending ++ rest) = line :: splitLines rest := by
  induction line with
  | nil =>
      cases ends with
      | pair => rfl
      | feed => rfl
      | lone alone =>
          rw [List.nil_append, List.singleton_append, splitLines]
          · rfl
          · rintro more - rfl
            exact alone rfl
  | cons c line ih =>
      obtain ⟨other, later⟩ := List.forall_mem_cons.mp unbroken
      exact split_cons other (ih later)

end Unbroken

theorem split_nonempty (text : List CodePoint) : splitLines text ≠ [] := by
  fun_cases splitLines text <;> simp_all

theorem lines_last {line : List CodePoint} (some : line ≠ []) (unbroken : Unbroken line) : lines line = [line] := by
  simp [lines, split_unbroken unbroken, some]

theorem lines_ended {line ending rest : List CodePoint} (unbroken : Unbroken line) (ends : LineEnd ending rest) :
    lines (line ++ ending ++ rest) = line :: lines rest := by
  have some := split_nonempty rest
  simp only [lines, split_ended unbroken ends, List.getLast?_cons_of_ne_nil some, List.dropLast_cons_of_ne_nil some]
  split <;> rfl

theorem lines_of_in_lines {text : List CodePoint} {found : List (List CodePoint)} (inLines : InLines text found) :
    lines text = found := by
  induction inLines with
  | none => rfl
  | last some unbroken => exact lines_last some unbroken
  | ended unbroken ends _ ih => rw [lines_ended unbroken ends, ih]

/-- A character that ends no line belongs to the first line of what follows it. -/
theorem in_lines_cons {c : CodePoint} (other : c ≠ '\r' ∧ c ≠ '\n') {rest : List CodePoint}
    {found : List (List CodePoint)} (inLines : InLines rest found) : ∃ more, InLines (c :: rest) more := by
  cases inLines with
  | none => exact ⟨[[c]], .last (List.cons_ne_nil _ _) (List.forall_mem_singleton.mpr other)⟩
  | last _ unbroken => exact ⟨[c :: rest], .last (List.cons_ne_nil _ _) (unbroken.cons other)⟩
  | ended unbroken ends behind => exact ⟨_, .ended (unbroken.cons other) ends behind⟩

theorem exists_in_lines (text : List CodePoint) : ∃ found, InLines text found := by
  have empty : Unbroken [] := List.forall_mem_nil _
  induction text using splitLines.induct with
  | case1 => exact ⟨[], .none⟩
  | case2 rest ih =>
      obtain ⟨found, inLines⟩ := ih
      exact ⟨[] :: found, .ended empty (.pair rest) inLines⟩
  | case3 c rest unpaired ends ih =>
      obtain ⟨found, inLines⟩ := ih
      rcases (by simpa [endsLine] using ends : c = '\r' ∨ c = '\n') with rfl | rfl
      · have alone : rest.head? ≠ some (.char '\n') := by
          rintro head
          obtain ⟨more, rfl⟩ := List.head?_eq_some_iff.mp head
          exact unpaired more rfl rfl
        exact ⟨[] :: found, .ended empty (.lone alone) inLines⟩
      · exact ⟨[] :: found, .ended empty (.feed rest) inLines⟩
  | case4 c rest _ inside _ ih | case5 c rest _ inside _ _ _ ih =>
      obtain ⟨found, inLines⟩ := ih
      exact in_lines_cons (by simpa [endsLine] using inside) inLines

/-- There is one way to tell a text line by line, and it gives the lines that the text is cut into. -/
theorem in_lines_iff {text : List CodePoint} {found : List (List CodePoint)} :
    InLines text found ↔ found = lines text := by
  constructor
  · exact fun inLines => (lines_of_in_lines inLines).symm
  · rintro rfl
    obtain ⟨found, inLines⟩ := exists_in_lines text
    exact lines_of_in_lines inLines ▸ inLines

end GrammarPage.Text
