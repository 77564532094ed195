/-!
What follows a given beginning.
-/

namespace GrammarPage.Text

variable {α : Type} [DecidableEq α]

/-- The rest of a text that begins with a word. -/
def after? : List α → List α → Option (List α)
  | [], text => some text
  | _ :: _, [] => none
  | w :: word, c :: text => if w = c then after? word text else none

theorem after_eq_some_iff {word text rest : List α} :
    after? word text = some rest ↔ text = word ++ rest := by
  induction word generalizing text with
  | nil => simp [after?]
  | cons w word ih =>
      cases text with
      | nil => simp [after?]
      | cons c text =>
          by_cases same : w = c
          · simp [after?, same, ih]
          · simp [after?, same, Ne.symm same]

end GrammarPage.Text
