import Mathlib.Data.List.DropRight
import Mathlib.Data.List.TakeWhile
import GrammarPage.Text.Blank

/-!
Blank ends. What is dropped at the end of a row of things depends on the last part of the row that holds
anything to be kept, and on nothing before it.
-/

namespace GrammarPage

section DropRight
variable {thing : Type} {drops : thing → Bool}

theorem drop_right_of_all {left right : List thing} (all : ∀ c ∈ right, drops c = true) :
    (left ++ right).rdropWhile drops = left.rdropWhile drops := by
  have front : ∀ c ∈ right.reverse, drops c = true := fun c member => all c (by simpa using member)
  simp [List.rdropWhile, List.reverse_append, List.dropWhile_append_of_pos front]

theorem drop_right_of_kept {left right : List thing} {kept : thing} (member : kept ∈ right)
    (keeps : drops kept = false) :
    (left ++ right).rdropWhile drops = left ++ right.rdropWhile drops := by
  have some : right.reverse.dropWhile drops ≠ [] := by
    intro none
    have all := List.dropWhile_eq_nil_iff.mp none kept (by simpa using member)
    simp [keeps] at all
  rw [List.rdropWhile, List.reverse_append, List.dropWhile_append, if_neg (by simpa using some)]
  simp [List.rdropWhile]

theorem drop_right_map {other : Type} (f : thing → other) (drops : other → Bool) (row : List thing) :
    (row.map f).rdropWhile drops = (row.rdropWhile (drops ∘ f)).map f := by
  simp [List.rdropWhile, ← List.map_reverse, List.dropWhile_map]

end DropRight

theorem blank_append (left right : Text) : blank (left ++ right) = (blank left && blank right) := by
  simp [blank]

theorem blank_iff {text : Text} : blank text = true ↔ ∀ c ∈ text.toList, Text.isBlank c = true := by
  simp [blank]

theorem visible_iff {text : Text} :
    blank text = false ↔ ∃ c ∈ text.toList, Text.isBlank c = false := by
  simp [blank]

theorem visible_some {text : Text} (visible : blank text = false) : text ≠ "" := by
  rintro rfl
  exact absurd visible (by decide)

theorem trimmed_end_chars (text : Text) :
    (trimmedEnd text).toList = text.toList.rdropWhile Text.isBlank := by
  rw [trimmedEnd, Text.to_list_of_list]
  rfl

/-- The first character that is not blank. -/
def lead (text : Text) : Option CodePoint := (Text.trimStart text.toList).head?

theorem lead_exact (text : Text) : lead text = text.toList.find? (!Text.isBlank ·) :=
  (List.find?_not_eq_head?_dropWhile Text.isBlank text.toList).symm

theorem lead_blank {text : Text} (unseen : blank text = true) : lead text = none := by
  rw [lead_exact, List.find?_eq_none]
  exact fun c member => by simp [blank_iff.mp unseen c member]

theorem lead_append {left : Text} (visible : blank left = false) (right : Text) :
    lead (left ++ right) = lead left := by
  obtain ⟨c, member, shows⟩ := visible_iff.mp visible
  have found : (left.toList.find? (!Text.isBlank ·)).isSome :=
    List.find?_isSome.mpr ⟨c, member, by simp [shows]⟩
  rw [lead_exact, lead_exact, Text.to_list_append, List.find?_append, Option.or_of_isSome found]

theorem lead_trimmed_end (text : Text) : lead (trimmedEnd text) = lead text := by
  have blanks : (text.toList.rtakeWhile Text.isBlank).find? (!Text.isBlank ·) = none := by
    rw [List.find?_eq_none]
    exact fun c member => by simp [List.mem_rtakeWhile_imp member]
  calc lead (trimmedEnd text)
      = (text.toList.rdropWhile Text.isBlank).find? (!Text.isBlank ·) := by
        rw [lead_exact, trimmed_end_chars]
    _ = (text.toList.rdropWhile Text.isBlank ++ text.toList.rtakeWhile Text.isBlank).find?
          (!Text.isBlank ·) := by rw [List.find?_append, blanks, Option.or_none]
    _ = lead text := by rw [List.rdropWhile_append_rtakeWhile, lead_exact]

end GrammarPage
