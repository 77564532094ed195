import GrammarPage.Proofs.Json.Rows

/-!
The text of a JSON file: printable ASCII in lines, each as far in as it is deep, and read again as the document
it was written for.
-/

namespace GrammarPage.Json

/-- A printable ASCII character. -/
def isInk (c : Char) : Bool := 0x20 ≤ c.toNat && c.toNat ≤ 0x7E

def Inked (text : List Char) : Prop := ∀ c ∈ text, isInk c = true

instance (text : List Char) : Decidable (Inked text) :=
  decidable_of_iff (text.all isInk = true) List.all_eq_true

/-- A printable ASCII character or a line feed. -/
def isPrinted (c : Char) : Bool := c = '\n' || isInk c

def Printed (text : List Char) : Prop := ∀ c ∈ text, isPrinted c = true

/-- What is on a row is one line, and begins with no space. -/
structure Row.Sound (row : Row) : Prop where
  inked : Inked row.text
  solid : ∃ first, row.text.head? = some first ∧ first ≠ ' '

namespace Inked
variable {left right text : List Char} {c : Char}

theorem nil : Inked [] := fun _ member => absurd member List.not_mem_nil

theorem append (first : Inked left) (second : Inked right) : Inked (left ++ right) :=
  List.forall_mem_append.mpr ⟨first, second⟩

theorem cons (first : isInk c = true) (rest : Inked text) : Inked (c :: text) :=
  List.forall_mem_cons.mpr ⟨first, rest⟩

end Inked

theorem hex_digits_inked (width n : Nat) : Inked (Text.hexDigits width n) := by
  have digit : ∀ n < 16, isInk (Text.hexDigit n) = true := by decide
  induction width generalizing n with
  | zero => exact .nil
  | succ width ih => exact (ih (n / 16)).append (.cons (digit (n % 16) (Nat.mod_lt n (by decide))) .nil)

theorem code_escapes_inked (codes : List Nat) : Inked (codes.flatMap codeEscape) := by
  intro c member
  obtain ⟨unit, -, inEscape⟩ := List.mem_flatMap.mp member
  exact (Inked.cons (by decide) (.cons (by decide) (hex_digits_inked 4 unit))) c inEscape

theorem plain_escape_inked {mark : Char} {unit : Nat} (escape : plainEscape? mark = some unit) :
    isInk mark = true := by
  have known : mark ∈ ['\x22', '\\', '/', 'b', 'f', 'n', 'r', 't'] := by
    refine Decidable.byContradiction fun other => ?_
    simp only [List.mem_cons, List.not_mem_nil, or_false, not_or] at other
    simp [plainEscape?, other] at escape
  have all : Inked ['\x22', '\\', '/', 'b', 'f', 'n', 'r', 't'] := by decide
  exact all mark known

theorem escaped_inked (c : Char) : Inked (escapedChar c) := by
  rcases escaped_char_cases c with ⟨mark, text, -, escape, -⟩ | ⟨text, -, -, low, high⟩ | text
  · rw [text]
    exact .cons (by decide) (.cons (plain_escape_inked escape) .nil)
  · rw [text]
    exact .cons (by simp [isInk, low, high]) .nil
  · rw [text]
    exact code_escapes_inked (units c)

theorem escaped_point_inked (c : CodePoint) : Inked (escapedPoint c) := by
  cases c with
  | char c => exact escaped_inked c
  | half offset => exact .cons (by decide) (.cons (by decide) (hex_digits_inked 4 _))

theorem quoted_inked (text : Text) : Inked (quoted text) := by
  refine Inked.append (.cons (by decide) fun c member => ?_) (by decide)
  obtain ⟨d, -, inEscape⟩ := List.mem_flatMap.mp member
  exact escaped_point_inked d c inEscape

/-! What may stand in front of a value and behind it in a row. -/

def Front (front : List Char) : Prop := Inked front ∧ ∀ first, front.head? = some first → first ≠ ' '

theorem front_nil : Front [] := ⟨.nil, fun _ none => by cases none⟩

theorem front_name (name : Text) : Front (quoted name ++ [':', ' ']) := by
  refine ⟨(quoted_inked name).append (by decide), fun first head => ?_⟩
  obtain rfl : '\x22' = first := Option.some.inj head
  decide

theorem comma_inked {α : Type} (rest : List α) : Inked (comma rest) := by
  cases rest with
  | nil => exact .nil
  | cons next rest =>
      rw [comma]
      decide

section Rows
variable {front back : List Char}

/-- A row is sound with a text of its own between its front and its back. -/
theorem row_sound {depth : Nat} {c : Char} {text : List Char} (before : Front front) (first : c ≠ ' ')
    (own : Inked (c :: text)) (behind : Inked back) : Row.Sound ⟨depth, front ++ c :: text ++ back⟩ := by
  refine ⟨(before.1.append own).append behind, ?_⟩
  cases front with
  | nil => exact ⟨c, rfl, first⟩
  | cons d front => exact ⟨d, rfl, before.2 d rfl⟩

/-- A value of one row. -/
theorem single_row_sound {depth : Nat} {value : Json} {c : Char} {text : List Char}
    (single : rows depth front back value = [⟨depth, front ++ written depth value ++ back⟩])
    (shape : written depth value = c :: text) (first : c ≠ ' ') (own : Inked (c :: text)) (before : Front front)
    (behind : Inked back) : ∀ row ∈ rows depth front back value, row.Sound := by
  rw [single, shape]
  exact List.forall_mem_singleton.mpr (row_sound before first own behind)

/-- The rows between two brackets. -/
theorem bracketed_sound {depth : Nat} {opening closing : Char} {inner : List Row}
    (before : Front front) (behind : Inked back) (solid : opening ≠ ' ' ∧ closing ≠ ' ')
    (inked : Inked [opening, closing]) (within : ∀ row ∈ inner, row.Sound) :
    ∀ row ∈ ⟨depth, front ++ [opening]⟩ :: inner ++ [⟨depth, closing :: back⟩], row.Sound := by
  have first : Inked [opening] := .cons (inked _ List.mem_cons_self) .nil
  have last : Inked [closing] := .cons (inked _ (List.mem_cons_of_mem _ List.mem_cons_self)) .nil
  have opens := @row_sound front [] depth opening [] before solid.1 first .nil
  rw [List.append_nil] at opens
  refine List.forall_mem_append.mpr ⟨List.forall_mem_cons.mpr ⟨opens, within⟩, List.forall_mem_singleton.mpr ?_⟩
  exact row_sound front_nil solid.2 last behind

end Rows

/-- The rows of a value are sound, whatever may stand in front of it and behind it. -/
def RowsSound (value : Json) : Prop :=
  ∀ depth front back, Front front → Inked back → ∀ row ∈ rows depth front back value, row.Sound

theorem item_rows_sound {items : List Json} (each : ∀ item ∈ items, RowsSound item) (depth : Nat) :
    ∀ row ∈ itemRows depth items, row.Sound := by
  induction items with
  | nil => exact List.forall_mem_nil _
  | cons item rest ih =>
      obtain ⟨first, later⟩ := List.forall_mem_cons.mp each
      exact List.forall_mem_append.mpr ⟨first depth _ _ front_nil (comma_inked rest), ih later⟩

theorem member_rows_sound {members : List (Text × Json)} (each : ∀ member ∈ members, RowsSound member.2)
    (depth : Nat) : ∀ row ∈ memberRows depth members, row.Sound := by
  induction members with
  | nil => exact List.forall_mem_nil _
  | cons entry rest ih =>
      obtain ⟨first, later⟩ := List.forall_mem_cons.mp each
      exact List.forall_mem_append.mpr ⟨first depth _ _ (front_name _) (comma_inked rest), ih later⟩

theorem rows_sound {value : Json} (plain : Plain value) : RowsSound value := by
  induction plain with
  | null => exact fun depth front back => single_row_sound rfl rfl (by decide) (by decide)
  | bool value =>
      intro depth front back
      cases value with
      | true => exact single_row_sound rfl rfl (by decide) (by decide)
      | false => exact single_row_sound rfl rfl (by decide) (by decide)
  | @str value _ => exact fun depth front back => single_row_sound rfl rfl (by decide) (quoted_inked value)
  | @list items _ each =>
      intro depth front back before behind
      cases items with
      | nil => exact single_row_sound rfl rfl (by decide) (by decide) before behind
      | cons item rest =>
          rw [rows]
          exact bracketed_sound before behind (by decide) (by decide) (item_rows_sound each (depth + 1))
  | @object members _ _ _ each =>
      intro depth front back before behind
      cases members with
      | nil => exact single_row_sound rfl rfl (by decide) (by decide) before behind
      | cons entry rest =>
          rw [rows]
          exact bracketed_sound before behind (by decide) (by decide) (member_rows_sound each (depth + 1))

theorem row_printed {row : Row} (sound : row.Sound) : Printed row.line := by
  intro c member
  rcases List.mem_append.mp member with front | feed
  · rcases List.mem_append.mp front with space | own
    · obtain rfl := List.eq_of_mem_replicate space
      rfl
    · simp [isPrinted, sound.inked c own]
  · obtain rfl := List.mem_singleton.mp feed
    rfl

theorem file_text_printed {document : Json} (plain : Plain document) : Printed (fileText document) := by
  intro c member
  rw [file_text_rows] at member
  obtain ⟨row, known, onRow⟩ := List.mem_flatMap.mp member
  exact row_printed (rows_sound plain 0 [] [] front_nil .nil row known) c onRow

/-- The text of a file is read as the document, member by member in the order of writing. -/
theorem read_file_text {document : Json} (plain : Plain document) :
    read (fileText document) = .ok document := by
  have unmarked : ¬ (fileText document).head? = some '\uFEFF' := by
    intro mark
    have printed := file_text_printed plain _ (List.mem_of_head? mark)
    exact absurd printed (by decide)
  have taken : Takes (fileText document) (.awaitValue []) (.finished document) :=
    (reads_back plain 0 _ _ (awaits_value [])).append (.space rfl _)
  have finished : run (.awaitValue []) (lexemes (fileText document)) = .ok document := by
    have whole := taken []
    rw [List.append_nil] at whole
    rw [whole, lexemes, run]
  rw [read, if_neg unmarked, finished]

end GrammarPage.Json
