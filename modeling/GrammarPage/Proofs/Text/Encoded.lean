import GrammarPage.Text.Encoded

/-!
Which texts have an encoding, and what stands in the way of the others: the first half of a pair, with those that
follow it directly. What is reported of a text needs none, and is the text itself where there is one.
-/

namespace GrammarPage.Text

theorem reported_append (left right : Text) : (left ++ right).reported = left.reported ++ right.reported := by
  simp [reported]

theorem reported_of_string (text : String) : (text : Text).reported = text := by
  have single : reportedPoint ∘ CodePoint.char = fun c => [c] := rfl
  rw [reported, to_list_of_string, List.flatMap_map, ← Function.comp_def, single, List.flatMap_singleton',
    String.ofList_toList]

/-- A text without an encoding: characters, then halves of pairs, then something that begins with none. -/
inductive Unencodable : Text → EncodeFault → Prop where
  | intro (before : List Char) {halves after : List CodePoint} (some : halves ≠ [])
      (lone : ∀ c ∈ halves, c.isHalf = true) (ends : after.head?.any CodePoint.isHalf = false) :
      Unencodable (ofList (before.map .char ++ halves ++ after)) ⟨before.length, halves⟩

theorem chars_found (chars : List Char) : (chars.map CodePoint.char).mapM CodePoint.char? = some chars := by
  induction chars with
  | nil => rfl
  | cons c rest ih => simp [CodePoint.char?, ih]

theorem half_found {points : List CodePoint} (half : ∃ c ∈ points, c.isHalf = true) :
    points.mapM CodePoint.char? = none := by
  induction points with
  | nil => simp at half
  | cons c rest ih =>
      cases c with
      | half offset => rfl
      | char c =>
          have later : rest.mapM CodePoint.char? = none := ih (by simpa [CodePoint.isHalf] using half)
          simp [CodePoint.char?, later]

theorem encoded_string (string : String) : (string : Text).encoded = .ok string := by
  simp only [encoded, to_list_of_string, chars_found, String.ofList_toList]

/-- The fault is where the halves begin, and holds all of them that stand together. -/
theorem fault_at_halves (chars : List Char) {halves after : List CodePoint} (some : halves ≠ [])
    (lone : ∀ c ∈ halves, c.isHalf = true) (ends : after.head?.any CodePoint.isHalf = false) :
    faultAt CodePoint.isHalf (chars.map .char ++ halves ++ after) = ⟨chars.length, halves⟩ := by
  obtain ⟨first, more, rfl⟩ := List.exists_cons_of_ne_nil some
  have passes : ∀ c ∈ chars.map CodePoint.char, (!c.isHalf) = true := by
    intro c member
    obtain ⟨d, -, rfl⟩ := List.mem_map.mp member
    rfl
  have before : (chars.map .char ++ first :: more ++ after : List CodePoint).takeWhile (!CodePoint.isHalf ·) =
      chars.map .char := by
    rw [List.append_assoc, List.takeWhile_append_of_pos passes, List.cons_append, List.takeWhile_cons_of_neg,
      List.append_nil]
    simp [lone first List.mem_cons_self]
  have behind : after.takeWhile CodePoint.isHalf = [] := by
    cases after with
    | nil => rfl
    | cons c after => exact List.takeWhile_cons_of_neg (by simpa using ends)
  rw [faultAt, before, List.length_map, List.append_assoc, List.drop_left' (List.length_map _),
    List.takeWhile_append_of_pos lone, behind, List.append_nil]

theorem Unencodable.encoded {text : Text} {fault : EncodeFault} (unencodable : Unencodable text fault) :
    text.encoded = .error fault := by
  cases unencodable with
  | @intro before halves after some lone ends =>
      obtain ⟨first, more, rfl⟩ := List.exists_cons_of_ne_nil some
      have half : (before.map .char ++ first :: more ++ after : List CodePoint).mapM CodePoint.char? = none :=
        half_found ⟨first, by simp, lone first List.mem_cons_self⟩
      simp only [Text.encoded, half, fault_at_halves before some lone ends]

theorem Unencodable.unique {text : Text} {fault other : EncodeFault} (first : Unencodable text fault)
    (second : Unencodable text other) : fault = other :=
  Except.error.inj (first.encoded.symm.trans second.encoded)

theorem Unencodable.not_string {text : Text} {fault : EncodeFault} {string : String}
    (unencodable : Unencodable text fault) : text ≠ string := by
  rintro rfl
  cases unencodable.encoded.symm.trans (encoded_string string)

/-- A text is a string, or there is a first half in it. -/
theorem string_or_unencodable (text : Text) :
    (∃ string : String, text = string) ∨ ∃ fault, Unencodable text fault := by
  have parts : ∃ (chars : List Char) (rest : List CodePoint), text.toList = chars.map .char ++ rest ∧
      (rest = [] ∨ rest.head?.any CodePoint.isHalf = true) := by
    induction text.toList with
    | nil => exact ⟨[], [], rfl, .inl rfl⟩
    | cons c rest ih =>
        cases c with
        | char c =>
            obtain ⟨chars, behind, rfl, stops⟩ := ih
            exact ⟨c :: chars, behind, rfl, stops⟩
        | half offset => exact ⟨[], .half offset :: rest, rfl, .inr rfl⟩
  obtain ⟨chars, rest, points, rfl | opens⟩ := parts
  · exact .inl ⟨String.ofList chars, by simp [← to_list_inj, points]⟩
  · have whole : text = ofList (chars.map .char ++ rest.takeWhile CodePoint.isHalf
        ++ rest.dropWhile CodePoint.isHalf) := by
      rw [List.append_assoc, List.takeWhile_append_dropWhile, ← points, of_list_to_list]
    rw [whole]
    refine .inr ⟨_, .intro chars ?_ (fun c member => List.all_eq_true.mp List.all_takeWhile c member) ?_⟩
    · cases rest with
      | nil => cases opens
      | cons c rest => simp [List.takeWhile_cons_of_pos (show c.isHalf = true from opens)]
    · have stops := List.head?_dropWhile_not CodePoint.isHalf rest
      revert stops
      cases rest.dropWhile CodePoint.isHalf <;> simp

theorem whole_iff {text : Text} : text.Whole ↔ ∃ string : String, text = string := by
  constructor
  · intro whole
    rcases text.string_or_unencodable with string | ⟨fault, ⟨before, some, lone, ends⟩⟩
    · exact string
    · obtain ⟨first, more, rfl⟩ := List.exists_cons_of_ne_nil some
      cases (lone first List.mem_cons_self).symm.trans (whole first (by simp))
  · rintro ⟨string, rfl⟩ c member
    obtain ⟨d, -, rfl⟩ := List.mem_map.mp member
    rfl

theorem encoded_ok_iff {text : Text} {string : String} : text.encoded = .ok string ↔ text = string := by
  constructor
  · intro found
    rcases text.string_or_unencodable with ⟨other, rfl⟩ | ⟨fault, unencodable⟩
    · cases (encoded_string other).symm.trans found
      rfl
    · cases unencodable.encoded.symm.trans found
  · rintro rfl
    exact encoded_string string

theorem encoded_error_iff {text : Text} {fault : EncodeFault} :
    text.encoded = .error fault ↔ Unencodable text fault := by
  constructor
  · intro refused
    rcases text.string_or_unencodable with ⟨string, rfl⟩ | ⟨other, unencodable⟩
    · cases (encoded_string string).symm.trans refused
    · cases unencodable.encoded.symm.trans refused
      exact unencodable
  · exact Unencodable.encoded

end GrammarPage.Text
