/-!
Texts. A text is a row of code points. Most code points are characters. The others are halves of surrogate
pairs that stand on their own, which no string of characters can hold: an escape may write one, and the name
of a file may have one where its octets are no UTF-8.
-/

namespace GrammarPage

inductive CodePoint where
  | char (c : Char)
  | half (offset : Fin 0x800)
  deriving DecidableEq, Repr, Inhabited

namespace CodePoint

instance : Coe Char CodePoint := ⟨.char⟩

/-- The number of a code point; the halves are those from U+D800 to U+DFFF. -/
def toNat : CodePoint → Nat
  | .char c => c.toNat
  | .half offset => 0xD800 + offset

def isHalf : CodePoint → Bool
  | .char _ => false
  | .half _ => true

def char? : CodePoint → Option Char
  | .char c => some c
  | .half _ => none

end CodePoint

structure Text where
  ofList ::
  toList : List CodePoint
  deriving DecidableEq, Repr, Inhabited

namespace Text

@[coe]
def ofString (text : String) : Text := .ofList (text.toList.map .char)

instance : Coe String Text := ⟨ofString⟩

instance : Append Text := ⟨fun left right => .ofList (left.toList ++ right.toList)⟩

def singleton (c : CodePoint) : Text := .ofList [c]

def join (texts : List Text) : Text := .ofList (texts.flatMap toList)

/-- The texts one after another, with a separator between each two. -/
def intercalate (separator : Text) (texts : List Text) : Text :=
  .ofList (separator.toList.intercalate (texts.map toList))

/-- Texts are ordered by the numbers of their code points. -/
instance : LE Text :=
  ⟨fun left right => (left.toList.map CodePoint.toNat).le (right.toList.map CodePoint.toNat)⟩

instance (left right : Text) : Decidable (left ≤ right) :=
  List.decidableLE (left.toList.map CodePoint.toNat) (right.toList.map CodePoint.toNat)

section Laws
variable {left right : Text}

@[simp]
theorem to_list_of_list {points : List CodePoint} : (ofList points).toList = points := rfl

theorem of_list_injective {first second : List CodePoint} (same : ofList first = ofList second) :
    first = second := congrArg toList same

@[simp]
theorem of_list_to_list : ofList left.toList = left := rfl

theorem to_list_inj : left.toList = right.toList ↔ left = right := by
  cases left
  cases right
  simp

@[simp]
theorem to_list_eq_nil_iff {text : Text} : text.toList = [] ↔ text = "" :=
  (to_list_inj : text.toList = ("" : Text).toList ↔ text = "")

@[simp]
theorem to_list_of_string {text : String} : (ofString text).toList = text.toList.map .char := rfl

@[simp]
theorem of_string_inj {first second : String} : ofString first = ofString second ↔ first = second := by
  rw [← to_list_inj, to_list_of_string, to_list_of_string, List.map_inj_right fun _ _ => CodePoint.char.inj,
    String.toList_inj]

@[simp]
theorem to_list_append : (left ++ right).toList = left.toList ++ right.toList := rfl

@[simp]
theorem to_list_singleton {c : CodePoint} : (singleton c).toList = [c] := rfl

@[simp]
theorem to_list_join {texts : List Text} : (join texts).toList = texts.flatMap toList := rfl

@[simp]
theorem to_list_intercalate {separator : Text} {texts : List Text} :
    (intercalate separator texts).toList = separator.toList.intercalate (texts.map toList) := rfl

theorem append_assoc {last : Text} : left ++ right ++ last = left ++ (right ++ last) := by
  simp [← to_list_inj]

@[simp]
theorem empty_append : ("" : Text) ++ left = left := rfl

@[simp]
theorem append_empty : left ++ "" = left := by
  simp [← to_list_inj]

@[simp]
theorem append_eq_left_iff : left ++ right = left ↔ right = "" := by
  rw [← to_list_inj, to_list_append, List.append_right_eq_self, to_list_eq_nil_iff]

@[simp]
theorem of_list_nil : ofList [] = "" := rfl

@[simp]
theorem of_list_eq_empty_iff {points : List CodePoint} : ofList points = "" ↔ points = [] :=
  ⟨of_list_injective, congrArg ofList⟩

theorem of_list_append {first second : List CodePoint} :
    ofList (first ++ second) = ofList first ++ ofList second := rfl

@[simp]
theorem join_nil : join [] = "" := rfl

@[simp]
theorem join_cons {text : Text} {texts : List Text} : join (text :: texts) = text ++ join texts := rfl

@[simp]
theorem join_append {first second : List Text} : join (first ++ second) = join first ++ join second := by
  simp [← to_list_inj]

theorem intercalate_cons_cons {separator first second : Text} {rest : List Text} :
    intercalate separator (first :: second :: rest) =
      first ++ separator ++ intercalate separator (second :: rest) := by
  simp [← to_list_inj, List.intercalate_cons_cons]

end Laws

end Text

end GrammarPage
