import GrammarPage.Proofs.Page.Landmarks
import GrammarPage.Proofs.Text.Entity

/-!
Reading a document for what it links. It is cut at its tags; the quoted values in a tag are its attributes,
and with the text behind the tag they tell whether an element can be linked to or links.
-/

namespace GrammarPage

namespace Document

/-- A tag, and the text behind it up to the next. -/
structure Piece where
  tag : List CodePoint
  text : List CodePoint
  deriving DecidableEq, Repr

def pieceOf (piece : List CodePoint) : Piece :=
  ⟨piece.takeWhile (· ≠ .char '>'), (piece.dropWhile (· ≠ .char '>')).tail⟩

/-- What stands in front of the first tag belongs to none. -/
def pieces (document : List CodePoint) : List Piece := (document.splitOn (.char '<')).tail.map pieceOf

/-- Quoted values, each behind what stands in front of its quotes. -/
def quotedValues : List (List CodePoint) → List (List CodePoint × List CodePoint)
  | before :: value :: rest => (before, value) :: quotedValues rest
  | _ => []

def attributes (tag : List CodePoint) : List (List CodePoint × List CodePoint) :=
  quotedValues (tag.splitOn (.char '\x22'))

/-- What stands in front of the quotes of a value. -/
def key (name : Text) : List CodePoint := (" " ++ name ++ "=").toList

/-- The values of the attributes of one name in a tag, as they are written. -/
def valuesIn (name : Text) (tag : List CodePoint) : List (List CodePoint) :=
  ((attributes tag).filter fun entry => (key name).isSuffixOf entry.1).map Prod.snd

def attribute? (name : Text) (tag : List CodePoint) : Option Text :=
  ((attributes tag).find? fun entry => (key name).isSuffixOf entry.1).map fun entry => decoded entry.2

def Piece.landmark? (piece : Piece) : Option Landmark :=
  match attribute? "id" piece.tag, attribute? "href" piece.tag with
  | none, none => none
  | id, href => some ⟨id, href, trimmed (decoded piece.text)⟩

def landmarksIn (document : List CodePoint) : List Landmark :=
  (pieces document).filterMap Piece.landmark?

def landmarks (document : Text) : List Landmark := landmarksIn document.toList

/-- Whatever follows a text, its own landmarks are read first and the rest is read as if it stood alone. -/
def Reads (text : List CodePoint) (found : List Landmark) : Prop :=
  ∀ rest, landmarksIn (text ++ rest) = found ++ landmarksIn rest

namespace Reads
variable {left right : List CodePoint} {found others : List Landmark}

theorem append (first : Reads left found) (second : Reads right others) :
    Reads (left ++ right) (found ++ others) := by
  intro rest
  rw [List.append_assoc, first, second, List.append_assoc]

theorem whole (reads : Reads left found) : landmarksIn left = found := by
  have alone := reads []
  rwa [List.append_nil, show landmarksIn [] = [] from rfl, List.append_nil] at alone

theorem nil : Reads [] [] := fun _ => rfl

end Reads

theorem split_bare {text : List CodePoint} {mark : CodePoint} (bare : mark ∉ text) (rest : List CodePoint) :
    (text ++ rest).splitOn mark = (rest.splitOn mark).modifyHead (text ++ ·) := by
  induction text with
  | nil =>
      rw [List.nil_append]
      cases rest.splitOn mark <;> rfl
  | cons c text ih =>
      have other : c ≠ mark := fun same => bare (by simp [same])
      rw [List.cons_append, List.splitOn_cons_eq_if_modifyHead, if_neg (by simpa using other),
        ih (List.not_mem_of_not_mem_cons bare), List.modifyHead_modifyHead]
      rfl

theorem reads_text {text : List CodePoint} (bare : .char '<' ∉ text) : Reads text [] := by
  intro rest
  obtain ⟨head, more, cut⟩ := List.exists_cons_of_ne_nil (List.splitOn_ne_nil (.char '<') rest)
  rw [landmarksIn, pieces, split_bare bare, cut, landmarksIn, pieces, cut]
  rfl

theorem piece_of_tag {tag : List CodePoint} (closes : .char '>' ∉ tag) (text : List CodePoint) :
    pieceOf (tag ++ .char '>' :: text) = ⟨tag, text⟩ := by
  have inTag : ∀ c ∈ tag, decide (c ≠ '>') = true := by
    intro c member
    exact decide_eq_true fun same => closes (same ▸ member)
  rw [pieceOf, List.takeWhile_append_of_pos inTag, List.dropWhile_append_of_pos inTag]
  simp

theorem landmarks_in_cons (rest : List CodePoint) :
    landmarksIn (.char '<' :: rest) = ((rest.splitOn (.char '<')).map pieceOf).filterMap Piece.landmark? := by
  rw [landmarksIn, pieces, List.splitOn_cons_eq_if_modifyHead, if_pos (by rfl), List.tail_cons]

/-- An element is read with the text up to the next tag. -/
theorem landmarks_in_tag {tag text : List CodePoint} (opens : .char '<' ∉ tag) (closes : .char '>' ∉ tag)
    (bare : .char '<' ∉ text) (rest : List CodePoint) :
    landmarksIn (.char '<' :: (tag ++ .char '>' :: text) ++ .char '<' :: rest) =
      (Piece.landmark? ⟨tag, text⟩).toList ++ landmarksIn (.char '<' :: rest) := by
  have inside : .char '<' ∉ tag ++ .char '>' :: text := by simp [opens, bare]
  rw [List.cons_append, landmarks_in_cons, landmarks_in_cons,
    List.splitOn_append_cons_self_of_not_mem inside, List.map_cons, piece_of_tag closes,
    List.filterMap_cons]
  cases Piece.landmark? ⟨tag, text⟩ <;> rfl

/-- A tag without an identity or a link. -/
structure Silent (tag : List CodePoint) : Prop where
  opens : .char '<' ∉ tag
  closes : .char '>' ∉ tag
  noId : attribute? "id" tag = none
  noLink : attribute? "href" tag = none

instance (tag : List CodePoint) : Decidable (Silent tag) :=
  decidable_of_iff (.char '<' ∉ tag ∧ .char '>' ∉ tag ∧ attribute? "id" tag = none ∧ attribute? "href" tag = none)
    ⟨fun ⟨opens, closes, noId, noLink⟩ => ⟨opens, closes, noId, noLink⟩,
      fun ⟨opens, closes, noId, noLink⟩ => ⟨opens, closes, noId, noLink⟩⟩

-- The text behind such a tag may go on for as long as it likes: no element comes of it.
theorem reads_silent {tag : List CodePoint} (silent : Silent tag) : Reads (.char '<' :: tag ++ [.char '>']) [] := by
  intro rest
  have none : ∀ text, Piece.landmark? ⟨tag, text⟩ = none := by
    intro text
    simp [Piece.landmark?, silent.noId, silent.noLink]
  obtain ⟨head, more, cut⟩ := List.exists_cons_of_ne_nil (List.splitOn_ne_nil (.char '<') rest)
  have inside : .char '<' ∉ tag ++ [.char '>'] := by simp [silent.opens]
  rw [List.cons_append, List.cons_append, landmarks_in_cons, split_bare inside, cut, landmarksIn, pieces,
    cut, List.modifyHead_cons, List.map_cons, List.append_assoc, List.singleton_append,
    piece_of_tag silent.closes, List.filterMap_cons_none (none head)]
  rfl

theorem attributes_bare {tag : List CodePoint} (unquoted : .char '\x22' ∉ tag) : attributes tag = [] := by
  rw [attributes, List.splitOn_eq_singleton unquoted]
  rfl

theorem values_bare (name : Text) {tag : List CodePoint} (bare : Text.Bare tag) : valuesIn name tag = [] := by
  rw [valuesIn, attributes_bare (bare.absent (by decide))]
  rfl

theorem attribute_values (name : Text) (tag : List CodePoint) :
    attribute? name tag = (valuesIn name tag).head?.map decoded := by
  rw [attribute?, valuesIn, List.head?_map, List.head?_filter, Option.map_map]
  rfl

/-- A name of a tag alone tells nothing. -/
theorem silent_bare {tag : List CodePoint} (bare : Text.Bare tag) : Silent tag := by
  have none : attributes tag = [] := attributes_bare (bare.absent (by decide))
  refine ⟨bare.absent (by decide), bare.absent (by decide), ?_, ?_⟩
  · simp [attribute?, none]
  · simp [attribute?, none]

end Document

end GrammarPage
