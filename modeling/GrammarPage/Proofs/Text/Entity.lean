import GrammarPage.Text.Entity

/-!
Reading entities back. An escaped text holds none of the characters that markup is made of, and its five
entities give the text again.
-/

namespace GrammarPage.Text

def unescaped : List CodePoint → List CodePoint
  | '&' :: 'a' :: 'm' :: 'p' :: ';' :: rest => .char '&' :: unescaped rest
  | '&' :: 'l' :: 't' :: ';' :: rest => .char '<' :: unescaped rest
  | '&' :: 'g' :: 't' :: ';' :: rest => .char '>' :: unescaped rest
  | '&' :: 'q' :: 'u' :: 'o' :: 't' :: ';' :: rest => .char '\x22' :: unescaped rest
  | '&' :: '#' :: 'x' :: '2' :: '7' :: ';' :: rest => .char '\x27' :: unescaped rest
  | c :: rest => c :: unescaped rest
  | [] => []

/-- The characters of markup, which never stand in an escaped text. -/
def isMarkup (c : CodePoint) : Bool := c = '<' || c = '>' || c = '\x22' || c = '\x27'

def Bare (text : List CodePoint) : Prop := text.any isMarkup = false

instance (text : List CodePoint) : Decidable (Bare text) :=
  inferInstanceAs (Decidable (text.any isMarkup = false))

namespace Bare
variable {left right : List CodePoint}

theorem append (first : Bare left) (second : Bare right) : Bare (left ++ right) := by
  rw [Bare, List.any_append, first, second]
  rfl

theorem absent {c : CodePoint} (bare : Bare left) (markup : isMarkup c = true) : c ∉ left := by
  intro member
  exact List.any_eq_false.mp bare c member markup

end Bare

theorem entity_cases (c : CodePoint) :
    (c = '&' ∨ c = '<' ∨ c = '>' ∨ c = '\x22' ∨ c = '\x27') ∨
      (entity c = [c] ∧ c ≠ '&' ∧ isMarkup c = false) := by
  by_cases named : c = '&' ∨ c = '<' ∨ c = '>' ∨ c = '\x22' ∨ c = '\x27'
  · exact .inl named
  · obtain ⟨ampersand, less, greater, double, single⟩ :
        c ≠ '&' ∧ c ≠ '<' ∧ c ≠ '>' ∧ c ≠ '\x22' ∧ c ≠ '\x27' := by simpa using named
    exact .inr ⟨by simp [entity, ampersand, less, greater, double, single], ampersand,
      by simp [isMarkup, less, greater, double, single]⟩

theorem unescaped_entity (c : CodePoint) (rest : List CodePoint) :
    unescaped (entity c ++ rest) = c :: unescaped rest := by
  rcases entity_cases c with (rfl | rfl | rfl | rfl | rfl) | ⟨bare, other, -⟩
  · rfl
  · rfl
  · rfl
  · rfl
  · rfl
  · rw [bare, List.singleton_append]
    simp [unescaped, other]

theorem unescaped_escaped (text : List CodePoint) : unescaped (escaped text) = text := by
  induction text with
  | nil => rfl
  | cons c rest ih =>
      rw [escaped] at ih ⊢
      rw [List.flatMap_cons, unescaped_entity, ih]

theorem entity_bare (c : CodePoint) : Bare (entity c) := by
  rcases entity_cases c with (rfl | rfl | rfl | rfl | rfl) | ⟨bare, -, plain⟩
  · rfl
  · rfl
  · rfl
  · rfl
  · rfl
  · simp [Bare, bare, plain]

theorem escaped_bare (text : List CodePoint) : Bare (escaped text) := by
  induction text with
  | nil => rfl
  | cons c rest ih => exact (entity_bare c).append ih

end GrammarPage.Text

namespace GrammarPage

/-- The text of a piece of a document. -/
def decoded (text : List CodePoint) : Text := Text.ofList (Text.unescaped text)

theorem decoded_markup (text : Text) : decoded (escapeMarkup text).toList = text := by
  rw [decoded, escapeMarkup, Text.to_list_of_list, Text.unescaped_escaped, Text.of_list_to_list]

theorem markup_bare (text : Text) : Text.Bare (escapeMarkup text).toList := by
  rw [escapeMarkup, Text.to_list_of_list]
  exact Text.escaped_bare text.toList

end GrammarPage
