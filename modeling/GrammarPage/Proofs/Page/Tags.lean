import GrammarPage.Proofs.Page.Markup

/-!
The tags of a document and the text between them. A text in which every tag is closed has its own tags and
shows its own text, whatever stands behind it; so a document is told line by line.
-/

namespace GrammarPage

namespace Document

def tags (document : List CodePoint) : List (List CodePoint) := (pieces document).map Piece.tag

/-- The text that is left when every tag is taken out. -/
def shown (document : List CodePoint) : List CodePoint :=
  (document.splitOn (.char '<')).headD [] ++ (pieces document).flatMap Piece.text

/-- Whatever follows a text, its own tags come first, and its own text is shown first. -/
structure Parts (text : List CodePoint) (own : List (List CodePoint)) (visible : List CodePoint) : Prop where
  tags : ∀ rest, tags (text ++ rest) = own ++ tags rest
  shown : ∀ rest, shown (text ++ rest) = visible ++ shown rest

namespace Parts
variable {left right visible later : List CodePoint} {own others : List (List CodePoint)}

theorem nil : Parts [] [] [] := ⟨fun _ => rfl, fun _ => rfl⟩

theorem append (first : Parts left own visible) (second : Parts right others later) :
    Parts (left ++ right) (own ++ others) (visible ++ later) := by
  constructor
  · intro rest
    rw [List.append_assoc, first.tags, second.tags, List.append_assoc]
  · intro rest
    rw [List.append_assoc, first.shown, second.shown, List.append_assoc]

theorem tags_exact (parts : Parts left own visible) : Document.tags left = own := by
  have alone := parts.tags []
  rwa [List.append_nil, show Document.tags [] = [] from rfl, List.append_nil] at alone

theorem shown_exact (parts : Parts left own visible) : Document.shown left = visible := by
  have alone := parts.shown []
  rwa [List.append_nil, show Document.shown [] = [] from rfl, List.append_nil] at alone

/-- Text without a tag is shown as it stands. -/
theorem text (bare : .char '<' ∉ left) : Parts left [] left := by
  constructor <;> intro rest
  all_goals
    obtain ⟨head, more, cut⟩ := List.exists_cons_of_ne_nil (List.splitOn_ne_nil (.char '<') rest)
  · rw [Document.tags, pieces, split_bare bare, cut, Document.tags, pieces, cut]
    rfl
  · rw [Document.shown, pieces, split_bare bare, cut, Document.shown, pieces, cut]
    simp

theorem tag (opens : .char '<' ∉ left) (closes : .char '>' ∉ left) :
    Parts (.char '<' :: left ++ [.char '>']) [left] [] := by
  have inside : .char '<' ∉ left ++ [.char '>'] := by simp [opens]
  constructor <;> intro rest
  all_goals
    obtain ⟨head, more, cut⟩ := List.exists_cons_of_ne_nil (List.splitOn_ne_nil (.char '<') rest)
    have cutTag : (.char '<' :: left ++ [.char '>'] ++ rest : List CodePoint).splitOn (.char '<') =
        [] :: (left ++ .char '>' :: head) :: more := by
      rw [List.cons_append, List.cons_append, List.splitOn_cons_eq_if_modifyHead, if_pos (by rfl),
        split_bare inside, cut, List.modifyHead_cons, List.append_assoc, List.singleton_append]
  · rw [Document.tags, pieces, cutTag, List.tail_cons, List.map_cons, piece_of_tag closes, Document.tags,
      pieces, cut]
    rfl
  · rw [Document.shown, pieces, cutTag, List.tail_cons, List.map_cons, piece_of_tag closes, Document.shown,
      pieces, cut]
    rfl

end Parts

/-- Every tag of the text is closed in it. -/
abbrev Closed (text : List CodePoint) : Prop := Parts text (tags text) (shown text)

theorem Parts.closed {text visible : List CodePoint} {own : List (List CodePoint)} (parts : Parts text own visible) :
    Closed text := by
  rw [Closed, parts.tags_exact, parts.shown_exact]
  exact parts

/-- Lines of closed texts. -/
theorem parts_lines {texts : List (List CodePoint)} (closed : ∀ text ∈ texts, Closed text) :
    Parts ([.char '\n'].intercalate texts) (texts.flatMap tags) ([.char '\n'].intercalate (texts.map shown)) := by
  induction texts with
  | nil => exact .nil
  | cons text rest ih =>
      obtain ⟨here, later⟩ := List.forall_mem_cons.mp closed
      cases rest with
      | nil => simpa [List.intercalate_singleton] using here
      | cons next rest =>
          have lineEnd : Parts [.char '\n'] [] [.char '\n'] := .text (by decide)
          have both := (here.append lineEnd).append (ih later)
          rw [List.append_nil] at both
          rw [List.map_cons, List.map_cons, List.intercalate_cons_cons, List.intercalate_cons_cons]
          exact both

/-! Lines of a document, and the tags that stand alone on one. -/

theorem split_lines {texts : List (List CodePoint)} (some : texts ≠ []) :
    ([.char '\n'].intercalate texts).splitOn (.char '\n') = texts.flatMap (·.splitOn (.char '\n')) := by
  induction texts with
  | nil => exact absurd rfl some
  | cons text rest ih =>
      cases rest with
      | nil => simp [List.intercalate_singleton]
      | cons next rest =>
          rw [List.intercalate_cons_cons, List.append_assoc, List.singleton_append,
            List.splitOn_append_cons_self, ih (List.cons_ne_nil _ _)]
          rfl

theorem infix_of_line {texts : List (List CodePoint)} {text : List CodePoint} (member : text ∈ texts) :
    text <:+: [.char '\n'].intercalate texts := by
  induction texts with
  | nil => exact absurd member List.not_mem_nil
  | cons first rest ih =>
      cases rest with
      | nil =>
          obtain rfl := List.mem_singleton.mp member
          have alone : [.char '\n'].intercalate [text] = text := List.intercalate_singleton
          exact alone.symm ▸ List.infix_refl text
      | cons next rest =>
          rw [List.intercalate_cons_cons, List.append_assoc]
          rcases List.mem_cons.mp member with rfl | later
          · exact (List.prefix_append text _).isInfix
          · exact (ih later).trans ((List.suffix_append _ _).trans (List.suffix_append _ _)).isInfix

theorem pieces_append (left right : List CodePoint) :
    pieces (left ++ .char '<' :: right) = pieces left ++ (right.splitOn (.char '<')).map pieceOf := by
  have some : left.splitOn (.char '<') ≠ [] := List.splitOn_ne_nil (.char '<') left
  rw [pieces, List.splitOn_append_cons_self, List.tail_append_of_ne_nil some, List.map_append]
  rfl

theorem piece_within {tag text : List CodePoint} (opens : .char '<' ∉ tag) (closes : .char '>' ∉ tag) :
    ∃ more, ((tag ++ .char '>' :: text).splitOn (.char '<')).map pieceOf =
      ⟨tag, (text.splitOn (.char '<')).headD []⟩ :: more := by
  have inside : .char '<' ∉ tag ++ [.char '>'] := by simp [opens]
  obtain ⟨head, more, cut⟩ := List.exists_cons_of_ne_nil (List.splitOn_ne_nil (.char '<') text)
  refine ⟨more.map pieceOf, ?_⟩
  rw [← List.singleton_append, ← List.append_assoc, split_bare inside, cut, List.modifyHead_cons,
    List.map_cons, List.append_assoc, List.singleton_append, piece_of_tag closes]
  rfl

/-- A tag that is a line of a text is among its tags. -/
theorem tag_of_line {tag text : List CodePoint} (opens : .char '<' ∉ tag) (closes : .char '>' ∉ tag)
    (line : .char '<' :: tag ++ [.char '>'] ∈ text.splitOn (.char '\n')) : tag ∈ tags text := by
  have within := infix_of_line line
  rw [List.intercalate_splitOn] at within
  obtain ⟨before, behind, parts⟩ := within
  obtain ⟨more, cut⟩ := @piece_within tag behind opens closes
  have shape : text = before ++ .char '<' :: (tag ++ .char '>' :: behind) := by simp [← parts]
  rw [tags, shape, pieces_append, cut, List.map_append]
  exact List.mem_append_right _ List.mem_cons_self

def preOpening : List CodePoint := ("pre style=\"font-family:Consolas,monospace\"" : Text).toList

def preClosing : List CodePoint := ("/pre" : Text).toList

/-- A tag alone on its line. -/
def tagLine (tag : List CodePoint) : List CodePoint := .char '<' :: tag ++ [.char '>']

/-- What stands between the line that opens the preformatted text and the line that closes it. -/
def preformatted (document : List CodePoint) : List CodePoint :=
  [.char '\n'].intercalate (((document.splitOn (.char '\n')).dropWhile (· ≠ tagLine preOpening)).tail.takeWhile
    (· ≠ tagLine preClosing))

theorem between_lines {front body back : List (List CodePoint)} {opening closing : List CodePoint}
    (first : opening ∉ front) (inside : closing ∉ body) :
    ((front ++ opening :: (body ++ closing :: back)).dropWhile (· ≠ opening)).tail.takeWhile (· ≠ closing) =
      body := by
  have skipped : ∀ line ∈ front, decide (line ≠ opening) = true := fun line member =>
    decide_eq_true fun same => first (same ▸ member)
  have taken : ∀ line ∈ body, decide (line ≠ closing) = true := fun line member =>
    decide_eq_true fun same => inside (same ▸ member)
  rw [List.dropWhile_append_of_pos skipped, List.dropWhile_cons_of_neg (by simp), List.tail_cons,
    List.takeWhile_append_of_pos taken, List.takeWhile_cons_of_neg (by simp), List.append_nil]

end Document

namespace Element
open Document

theorem tag_text_bare {mark : CodePoint} (element : Element) (markup : Text.isMarkup mark = true)
    (other : mark ≠ '\x22') : mark ∉ element.tagText := by
  intro member
  rcases List.mem_append.mp member with inName | inEntries
  · exact element.tag_bare.absent markup inName
  · exact entries_text_bare markup other element.entries_safe inEntries

def closingTag (element : Element) : List CodePoint := .char '/' :: element.tag.toList

theorem closing_tag_bare (element : Element) : Text.Bare element.closingTag := by
  have slash : Text.Bare [.char '/'] := by decide
  exact slash.append element.tag_bare

/-- An element is two tags with its text between them. -/
theorem parts (element : Element) :
    Parts element.markup.toList [element.tagText, element.closingTag] (escapeMarkup element.text).toList := by
  have opening : Parts (.char '<' :: element.tagText ++ [.char '>']) [element.tagText] [] :=
    .tag (element.tag_text_bare (by decide) (by decide)) (element.tag_text_bare (by decide) (by decide))
  have text : Parts (escapeMarkup element.text).toList [] (escapeMarkup element.text).toList :=
    .text ((markup_bare element.text).absent (by decide))
  have closing : Parts (.char '<' :: element.closingTag ++ [.char '>']) [element.closingTag] [] :=
    .tag (element.closing_tag_bare.absent (by decide)) (element.closing_tag_bare.absent (by decide))
  have whole := (opening.append text).append closing
  simpa [markup_exact, tagText, closingTag] using whole

/-- The tags of elements begin with the letters of their two kinds. -/
theorem tag_begins {element : Element} {tag : List CodePoint}
    (member : tag ∈ [element.tagText, element.closingTag]) :
    tag.head? = some (.char 's') ∨ tag.head? = some (.char 'a') ∨
      tag = ("/span" : Text).toList ∨ tag = ("/a" : Text).toList := by
  have kinds : element.tag = "span" ∨ element.tag = "a" := by
    rw [Element.tag]
    split
    · exact .inl rfl
    · exact .inl rfl
    · exact .inr rfl
    · exact .inr rfl
  rcases List.mem_pair.mp member with rfl | rfl
  · rcases kinds with kind | kind
    · exact .inl (by simp [tagText, kind])
    · exact .inr (.inl (by simp [tagText, kind]))
  · rcases kinds with kind | kind
    · exact .inr (.inr (.inl (by simp [closingTag, kind])))
    · exact .inr (.inr (.inr (by simp [closingTag, kind])))

end Element

namespace Page
open Document

/-- The tags of a line are those of its elements, and it shows their texts. -/
theorem line_parts (line : List Element) :
    Parts (lineMarkup line).toList (line.flatMap fun element => [element.tagText, element.closingTag])
      (Text.escaped (line.flatMap (·.text.toList))) := by
  induction line with
  | nil => exact .nil
  | cons element rest ih =>
      have parts := element.parts.append ih
      rw [escapeMarkup, Text.to_list_of_list, ← Text.escaped_append] at parts
      simpa [lineMarkup, Text.to_list_join] using parts

theorem bare_tag_parts {text tag : Text} (shape : text = "<" ++ tag ++ ">") (opens : .char '<' ∉ tag.toList)
    (closes : .char '>' ∉ tag.toList) : Parts text.toList [tag.toList] [] := by
  have parts := Parts.tag opens closes
  rw [shape]
  simpa using parts

theorem title_parts (title : Text) :
    Parts ("<title>" ++ escapeMarkup title ++ "</title>").toList [("title" : Text).toList, ("/title" : Text).toList]
      (escapeMarkup title).toList := by
  have opening := @bare_tag_parts "<title>" "title" (by decide) (by decide) (by decide)
  have closing := @bare_tag_parts "</title>" "/title" (by decide) (by decide) (by decide)
  have text : Parts (escapeMarkup title).toList [] (escapeMarkup title).toList :=
    .text ((markup_bare title).absent (by decide))
  rw [Text.to_list_append, Text.to_list_append]
  simpa using (opening.append text).append closing

/-- The lines in front of the preformatted text. -/
def front (title : Text) : List (List CodePoint) := ((head title).map Text.toList).dropLast

/-- The lines behind the preformatted text. -/
def back : List (List CodePoint) := (foot.map Text.toList).tail

def rowTexts (page : Page) : List (List CodePoint) := page.lines.map fun line => (lineMarkup line).toList

def texts (page : Page) : List (List CodePoint) :=
  front page.title ++ tagLine preOpening :: (page.rowTexts ++ tagLine preClosing :: back)

def frontTags : List (List CodePoint) :=
  (["!DOCTYPE html", "html", "head", "meta charset=\"utf-8\"", "title", "/title", "/head", "body"] : List Text).map
    Text.toList

def backTags : List (List CodePoint) := (["/body", "/html"] : List Text).map Text.toList

def elementTags (elements : List Element) : List (List CodePoint) :=
  elements.flatMap fun element => [element.tagText, element.closingTag]

theorem markup_texts (page : Page) : page.markup.toList = [.char '\n'].intercalate page.texts := by
  have opening : (head page.title).map Text.toList = front page.title ++ [tagLine preOpening] := rfl
  have closing : foot.map Text.toList = tagLine preClosing :: back := by decide
  rw [markup, Text.to_list_intercalate, List.map_append, List.map_append, opening, closing, texts, rowTexts,
    List.map_map]
  simp [Function.comp_def]

theorem front_closed (title : Text) : ∀ text ∈ front title, Closed text := by
  simp only [front, head, List.map_cons, List.map_nil, List.dropLast_cons_cons, List.dropLast_singleton,
    List.forall_mem_cons]
  refine ⟨?_, ?_, ?_, ?_, (title_parts title).closed, ?_, ?_, fun _ member => absurd member List.not_mem_nil⟩
  · exact (@bare_tag_parts _ "!DOCTYPE html" (by decide) (by decide) (by decide)).closed
  · exact (@bare_tag_parts _ "html" (by decide) (by decide) (by decide)).closed
  · exact (@bare_tag_parts _ "head" (by decide) (by decide) (by decide)).closed
  · exact (@bare_tag_parts _ "meta charset=\"utf-8\"" (by decide) (by decide) (by decide)).closed
  · exact (@bare_tag_parts _ "/head" (by decide) (by decide) (by decide)).closed
  · exact (@bare_tag_parts _ "body" (by decide) (by decide) (by decide)).closed

theorem front_tags (title : Text) : (front title).flatMap tags = frontTags := by
  simp only [front, head, List.map_cons, List.map_nil, List.dropLast_cons_cons, List.dropLast_singleton,
    List.flatMap_cons, List.flatMap_nil, (title_parts title).tags_exact]
  decide

theorem back_closed : ∀ text ∈ back, Closed text := by
  have body := (@bare_tag_parts "</body>" "/body" (by decide) (by decide) (by decide)).closed
  have html := (@bare_tag_parts "</html>" "/html" (by decide) (by decide) (by decide)).closed
  simp only [back, foot, List.map_cons, List.map_nil, List.tail_cons, List.forall_mem_cons]
  exact ⟨body, html, Parts.nil.closed, fun _ member => absurd member List.not_mem_nil⟩

theorem back_tags : back.flatMap tags = backTags := by decide

theorem row_closed (page : Page) : ∀ text ∈ page.rowTexts, Closed text := by
  intro text member
  obtain ⟨line, -, rfl⟩ := List.mem_map.mp member
  exact (line_parts line).closed

theorem row_tags (page : Page) : page.rowTexts.flatMap tags = elementTags page.lines.flatten := by
  rw [rowTexts]
  induction page.lines with
  | nil => rfl
  | cons line rest ih =>
      have here : tags (lineMarkup line).toList = elementTags line := (line_parts line).tags_exact
      rw [List.map_cons, List.flatMap_cons, here, ih, List.flatten_cons]
      exact List.flatMap_append.symm

/-- The tags of a document, from its first line to its last. -/
theorem document_tags (page : Page) :
    tags page.markup.toList =
      frontTags ++ preOpening :: (elementTags page.lines.flatten ++ preClosing :: backTags) := by
  have opening : Parts (tagLine preOpening) [preOpening] [] := .tag (by decide) (by decide)
  have closing : Parts (tagLine preClosing) [preClosing] [] := .tag (by decide) (by decide)
  have closed : ∀ text ∈ page.texts, Closed text :=
    List.forall_mem_append.mpr ⟨front_closed page.title, List.forall_mem_cons.mpr ⟨opening.closed,
      List.forall_mem_append.mpr ⟨page.row_closed, List.forall_mem_cons.mpr ⟨closing.closed, back_closed⟩⟩⟩⟩
  rw [markup_texts, (parts_lines closed).tags_exact, texts, List.flatMap_append, List.flatMap_cons,
    List.flatMap_append, List.flatMap_cons, opening.tags_exact, closing.tags_exact, front_tags, row_tags,
    back_tags]
  rfl

/-- The lines between the two that open and close the preformatted text are those of the elements. -/
theorem preformatted_exact (page : Page) :
    preformatted page.markup.toList = [.char '\n'].intercalate page.rowTexts := by
  have opening : (tagLine preOpening).splitOn (.char '\n') = [tagLine preOpening] := by decide
  have closing : (tagLine preClosing).splitOn (.char '\n') = [tagLine preClosing] := by decide
  have first : tagLine preOpening ∉ (front page.title).flatMap (·.splitOn (.char '\n')) := by
    intro member
    obtain ⟨text, inFront, line⟩ := List.mem_flatMap.mp member
    have tag := List.mem_flatMap.mpr ⟨text, inFront, tag_of_line (by decide) (by decide) line⟩
    rw [front_tags] at tag
    exact absurd tag (by decide)
  -- A text cannot close the preformatted part: its brackets are escaped, and elements have other tags.
  have inside : tagLine preClosing ∉ page.rowTexts.flatMap (·.splitOn (.char '\n')) := by
    intro member
    obtain ⟨text, inRows, line⟩ := List.mem_flatMap.mp member
    have tag := List.mem_flatMap.mpr ⟨text, inRows, tag_of_line (by decide) (by decide) line⟩
    rw [row_tags] at tag
    obtain ⟨element, -, among⟩ := List.mem_flatMap.mp tag
    exact absurd (Element.tag_begins among) (by decide)
  have some : page.texts ≠ [] := by simp [texts]
  have cut : page.markup.toList.splitOn (.char '\n') =
      (front page.title).flatMap (·.splitOn (.char '\n')) ++ tagLine preOpening ::
        (page.rowTexts.flatMap (·.splitOn (.char '\n'))
          ++ tagLine preClosing :: back.flatMap (·.splitOn (.char '\n'))) := by
    rw [markup_texts, split_lines some, texts, List.flatMap_append, List.flatMap_cons, List.flatMap_append,
      List.flatMap_cons, opening, closing]
    rfl
  rw [preformatted, cut, between_lines first inside]
  cases rows : page.rowTexts with
  | nil => rfl
  | cons text rest => rw [← split_lines (List.cons_ne_nil text rest), List.intercalate_splitOn]

end Page

end GrammarPage
