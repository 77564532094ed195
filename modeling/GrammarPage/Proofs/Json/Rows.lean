import GrammarPage.Proofs.Json.Written

/-!
The layout of a written document. Every row stands on a line of its own: a value that holds no others, or one
bracket of a value that does. A row is two spaces further in for each list or object around it.
-/

namespace GrammarPage.Json

structure Row where
  depth : Nat
  text : List Char
  deriving DecidableEq, Repr

def Row.line (row : Row) : List Char := List.replicate (2 * row.depth) ' ' ++ row.text ++ ['\n']

/-- The comma behind a value that is not the last. -/
def comma {α : Type} : List α → List Char
  | [] => []
  | _ :: _ => [',']

mutual
/-- The rows of a value, with what stands in front of it and behind it. -/
def rows (depth : Nat) (front back : List Char) : Json → List Row
  | .list (item :: rest) =>
      ⟨depth, front ++ ['[']⟩ :: rows (depth + 1) [] (comma rest) item
        ++ itemRows (depth + 1) rest ++ [⟨depth, ']' :: back⟩]
  | .object ((name, value) :: rest) =>
      ⟨depth, front ++ ['\x7b']⟩ :: rows (depth + 1) (quoted name ++ [':', ' ']) (comma rest) value
        ++ memberRows (depth + 1) rest ++ [⟨depth, '\x7d' :: back⟩]
  | value => [⟨depth, front ++ written depth value ++ back⟩]

def itemRows (depth : Nat) : List Json → List Row
  | [] => []
  | item :: rest => rows depth [] (comma rest) item ++ itemRows depth rest

def memberRows (depth : Nat) : List (Text × Json) → List Row
  | [] => []
  | (name, value) :: rest =>
      rows depth (quoted name ++ [':', ' ']) (comma rest) value ++ memberRows depth rest
end

/-- The lines of some rows, one after another. -/
def textOfRows (rows : List Row) : List Char := rows.flatMap Row.line

theorem text_of_rows_append (left right : List Row) :
    textOfRows (left ++ right) = textOfRows left ++ textOfRows right := List.flatMap_append

theorem text_of_rows_cons (row : Row) (rest : List Row) :
    textOfRows (row :: rest) = row.line ++ textOfRows rest := List.flatMap_cons

theorem text_of_row (row : Row) : textOfRows [row] = row.line := List.flatMap_singleton _ _

mutual
/-- A document is written row by row. -/
theorem rows_written (depth : Nat) (front back : List Char) : ∀ value : Json,
    textOfRows (rows depth front back value) = Row.line ⟨depth, front ++ written depth value ++ back⟩
  | .null | .bool _ | .int _ | .real _ | .str _ | .list [] | .object [] => by
      simp [rows, text_of_row]
  | .list (item :: rest) => by
      have first := rows_written (depth + 1) [] (comma rest) item
      have later := item_rows_written (depth + 1) rest
      rw [rows, text_of_rows_append, text_of_rows_append, text_of_rows_cons, text_of_row, first]
      simp [written, Row.line, lineBreak, later]
  | .object ((name, value) :: rest) => by
      have first := rows_written (depth + 1) (quoted name ++ [':', ' ']) (comma rest) value
      have later := member_rows_written (depth + 1) rest
      rw [rows, text_of_rows_append, text_of_rows_append, text_of_rows_cons, text_of_row, first]
      simp [written, Row.line, lineBreak, later]

/-- A row that ends in front of further items ends in a comma. -/
theorem item_rows_written (depth : Nat) : ∀ (items : List Json) (behind : List Char),
    comma items ++ '\n' :: (textOfRows (itemRows depth items) ++ behind) =
      writtenItems depth items ++ '\n' :: behind
  | [], _ => rfl
  | item :: rest, behind => by
      have first := rows_written depth [] (comma rest) item
      have later := item_rows_written depth rest
      rw [itemRows, text_of_rows_append, first, writtenItems, comma]
      simp [Row.line, lineBreak, later]

theorem member_rows_written (depth : Nat) : ∀ (members : List (Text × Json)) (behind : List Char),
    comma members ++ '\n' :: (textOfRows (memberRows depth members) ++ behind) =
      writtenMembers depth members ++ '\n' :: behind
  | [], _ => rfl
  | (name, value) :: rest, behind => by
      have first := rows_written depth (quoted name ++ [':', ' ']) (comma rest) value
      have later := member_rows_written depth rest
      rw [memberRows, text_of_rows_append, first, writtenMembers, comma]
      simp [Row.line, lineBreak, later]
end

theorem file_text_rows (document : Json) : fileText document = textOfRows (rows 0 [] [] document) := by
  rw [rows_written]
  simp [Row.line, fileText]

end GrammarPage.Json
