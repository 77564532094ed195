import GrammarPage.Proofs.Page.Emitted
import GrammarPage.Proofs.Page.Tags

/-!
A document tells what it was made from. Between its preformatted lines stand the texts of the lines, its title
element holds the title, and every identity, link and tip is read as the text it was made from; no text is
ever taken for markup.
-/

namespace GrammarPage

namespace Text

theorem escaped_lines (texts : List (List CodePoint)) :
    escaped ([.char '\n'].intercalate texts) = [.char '\n'].intercalate (texts.map escaped) := by
  induction texts with
  | nil => rfl
  | cons text rest ih =>
      cases rest with
      | nil => simp [List.intercalate_singleton]
      | cons next rest =>
          have lineEnd : escaped [.char '\n'] = [.char '\n'] := by decide
          rw [List.map_cons, List.map_cons, List.intercalate_cons_cons, List.intercalate_cons_cons,
            escaped_append, escaped_append, lineEnd, ih, List.map_cons]

end Text

/-! The texts and roles of the elements that lines are made into. -/

def elementsText (elements : List Element) : Text := Text.join (elements.map (·.text))

theorem elements_text_append (left right : List Element) :
    elementsText (left ++ right) = elementsText left ++ elementsText right := by
  simp [elementsText]

theorem elements_text_cons (element : Element) (rest : List Element) :
    elementsText (element :: rest) = element.text ++ elementsText rest := by
  simp [elementsText]

/-- An element's role with what it was made from: a name is the text without its blanks and is defined, and
what leads out is the link that the table has for the name. -/
inductive Element.MadeFrom (defined : List Text) (links : LinkTable) : Element → Prop
  | plain (swatch : Swatch) (text : Text) : MadeFrom defined links ⟨.plain, swatch, text⟩
  | reference (swatch : Swatch) (text : Text) (known : trimmed text ∈ defined) :
      MadeFrom defined links ⟨.reference (trimmed text), swatch, text⟩
  | anchor (swatch : Swatch) (text : Text) (known : trimmed text ∈ defined)
      (inward : ∀ link, links.get? (trimmed text) = some link → filled link.target = none) :
      MadeFrom defined links ⟨.anchor (trimmed text), swatch, text⟩
  | outward (swatch : Swatch) (text : Text) (known : trimmed text ∈ defined) {link : Link} {target : Text}
      (given : links.get? (trimmed text) = some link) (leads : filled link.target = some target) :
      MadeFrom defined links
        ⟨.outward (trimmed text) target ((filled link.title).getD (trimmed text)), swatch, text⟩

theorem elements_text_single (element : Element) : elementsText [element] = element.text := by
  simp [elementsText]

namespace Emitter

theorem plain_text (swatch : Swatch) (text : Text) : elementsText (plainElements swatch text) = text := by
  rw [plainElements]
  split
  · rename_i empty
    rw [empty]
    rfl
  · exact elements_text_single _

/-- Nothing is lost between words. -/
theorem word_text (defined : List Text) (swatch : Swatch) (before : Text) (words : List Text) :
    elementsText (wordElements defined swatch before words) = before ++ Text.join words := by
  induction words generalizing before with
  | nil =>
      rw [wordElements, plain_text]
      exact Text.append_empty.symm
  | cons word rest ih =>
      rw [wordElements, Text.join_cons]
      split
      · rw [elements_text_append, plain_text, elements_text_cons, ih, Text.empty_append]
      · rw [ih, Text.append_assoc]

theorem words_join (text : Text) : Text.join (wordsOf text) = text := by
  rw [← Text.to_list_inj, Text.to_list_join, wordsOf, List.flatMap_map]
  simp [List.flatMap_def, Text.words_flatten]

theorem word_made_from (defined : List Text) (links : LinkTable) (swatch : Swatch) (before : Text)
    (words : List Text) :
    ∀ element ∈ wordElements defined swatch before words, element.MadeFrom defined links := by
  have plain : ∀ text, ∀ element ∈ plainElements swatch text, element.MadeFrom defined links := by
    intro text element member
    rw [plainElements] at member
    split at member
    · exact absurd member List.not_mem_nil
    · obtain rfl := List.mem_singleton.mp member
      exact .plain swatch text
  induction words generalizing before with
  | nil => exact plain before
  | cons word rest ih =>
      rw [wordElements]
      split
      · rename_i known
        exact List.forall_mem_append.mpr ⟨plain before, List.forall_mem_cons.mpr
          ⟨.reference swatch word (List.contains_iff_mem.mp known), ih ""⟩⟩
      · exact ih (before ++ word)

theorem anchor_made_from {defined : List Text} (links : LinkTable) (swatch : Swatch) {text : Text}
    (known : trimmed text ∈ defined) :
    Element.MadeFrom defined links ⟨anchorRole links (trimmed text), swatch, text⟩ := by
  rw [anchorRole]
  split
  · rename_i none
    exact .anchor swatch text known (by simp [none])
  · rename_i link given
    split
    · rename_i inward
      exact .anchor swatch text known (by simp [given, inward])
    · rename_i target leads
      exact .outward swatch text known given leads

section Emitted
variable {emitter : Emitter} {links : LinkTable} {anchored after : List Text} {run : Run Mark}
  {line : List (Run Mark)} {lines : List (List (Run Mark))} {elements : List Element}
  {rows : List (List Element)}

theorem run_text (emits : Emits emitter links run anchored elements after) :
    elementsText elements = run.text := by
  cases emits with
  | plain swatch => exact elements_text_single _
  | anchor swatch known => exact elements_text_single _
  | words swatch => rw [word_text, words_join, Text.empty_append]

theorem row_text (emits : EmitsRow emitter links line anchored elements after) :
    elementsText elements = lineText line := by
  induction emits with
  | nil anchored => rfl
  | cons here row ih =>
      rw [elements_text_append, run_text here, ih, lineText, lineText, List.map_cons, Text.join_cons]

theorem lines_text (emits : EmitsLines emitter links lines anchored rows after) :
    rows.map elementsText = lines.map lineText := by
  induction emits with
  | nil anchored => rfl
  | cons here below ih => rw [List.map_cons, List.map_cons, row_text here, ih]

theorem run_made_from (emits : Emits emitter links run anchored elements after) :
    ∀ element ∈ elements, element.MadeFrom emitter.defined links := by
  cases emits with
  | plain swatch => exact List.forall_mem_singleton.mpr (.plain swatch run.text)
  | anchor swatch known => exact List.forall_mem_singleton.mpr (anchor_made_from links swatch known)
  | words swatch => exact word_made_from emitter.defined links swatch "" (wordsOf run.text)

end Emitted

end Emitter

/-- The attributes of a role that hold text of its own. -/
def Role.attributes : Role → List (Text × Text)
  | .plain => []
  | .anchor name => [("id", name)]
  | .outward name target title => [("id", name), ("href", target), ("title", title)]
  | .reference name => [("href", "#" ++ name)]

def Role.textNames : List Text := ["id", "href", "title"]

namespace Document

/-- The values of the attributes of one name, tag by tag. -/
def values (name : Text) (document : List CodePoint) : List (List CodePoint) := (tags document).flatMap (valuesIn name)

/-- The texts of the title elements. -/
def titles (document : List CodePoint) : List Text :=
  ((pieces document).filter fun piece => piece.tag = ("title" : Text).toList).map fun piece => decoded piece.text

end Document

namespace Element
open Document

theorem entries_exact (element : Element) :
    ∃ css, element.entries =
      (element.role.attributes.map fun each => (each.1, escapeMarkup each.2)) ++ [(("style" : Text), css)] := by
  obtain ⟨role, swatch, text⟩ := element
  cases role with
  | plain => exact ⟨_, rfl⟩
  | anchor name => exact ⟨_, rfl⟩
  | outward name target title => exact ⟨_, rfl⟩
  | reference name => exact ⟨_, rfl⟩

/-- The texts of a role, each under the name of its attribute. -/
theorem values_tag_text {name : Text} (known : name ∈ Role.textNames) (element : Element) :
    valuesIn name element.tagText =
      (element.role.attributes.filter fun each => each.1 = name).map fun each =>
        (escapeMarkup each.2).toList := by
  have plain : ("style" : Text) ≠ name := by
    rintro rfl
    exact absurd known (by decide)
  obtain ⟨css, entries⟩ := element.entries_exact
  rw [tagText, values_entries element.tag_bare element.tag_solid element.entries_safe, entries,
    List.filter_append, List.filter_cons_of_neg (by simpa using plain), List.filter_nil, List.append_nil,
    List.filter_map, List.map_map]
  rfl

end Element

namespace Page
open Document

theorem line_shown (line : List Element) :
    shown (lineMarkup line).toList = Text.escaped (elementsText line).toList := by
  rw [(line_parts line).shown_exact, elementsText, Text.to_list_join, List.flatMap_map]

/-- The page shows the texts of its elements, line by line. -/
theorem shown_exact (page : Page) :
    decoded (shown (preformatted page.markup.toList)) = Text.intercalate "\n" (page.lines.map elementsText) := by
  have rows : page.rowTexts.map shown =
      (page.lines.map fun line => (elementsText line).toList).map Text.escaped := by
    rw [rowTexts, List.map_map, List.map_map]
    exact List.map_congr_left fun line _ => line_shown line
  rw [preformatted_exact, (parts_lines page.row_closed).shown_exact, rows, ← Text.escaped_lines, decoded,
    Text.unescaped_escaped, ← Text.to_list_inj, Text.to_list_of_list, Text.to_list_intercalate, List.map_map]
  rfl

theorem values_exact {name : Text} (known : name ∈ Role.textNames) (page : Page) :
    values name page.markup.toList = page.lines.flatten.flatMap fun element =>
      (element.role.attributes.filter fun each => each.1 = name).map fun each =>
        (escapeMarkup each.2).toList := by
  have front : ∀ name ∈ Role.textNames, (frontTags ++ [preOpening]).flatMap (valuesIn name) = [] := by decide
  have back : ∀ name ∈ Role.textNames, (preClosing :: backTags).flatMap (valuesIn name) = [] := by decide
  have parts : frontTags ++ preOpening :: (elementTags page.lines.flatten ++ preClosing :: backTags) =
      (frontTags ++ [preOpening]) ++ elementTags page.lines.flatten ++ preClosing :: backTags := by simp
  rw [values, document_tags, parts, List.flatMap_append, List.flatMap_append, front name known, back name known,
    List.nil_append, List.append_nil, elementTags, List.flatMap_assoc]
  congr 1
  funext element
  rw [List.flatMap_cons, List.flatMap_singleton, Element.values_tag_text known,
    values_bare name element.closing_tag_bare, List.append_nil]

theorem title_tag_once (page : Page) : (tags page.markup.toList).count ("title" : Text).toList = 1 := by
  have elsewhere : ("title" : Text).toList ∉ elementTags page.lines.flatten := by
    intro member
    obtain ⟨element, -, among⟩ := List.mem_flatMap.mp member
    exact absurd (Element.tag_begins among) (by decide)
  have front : frontTags.count ("title" : Text).toList = 1 := by decide
  have back : (preClosing :: backTags).count ("title" : Text).toList = 0 := by decide
  rw [document_tags, List.count_append, List.count_cons_of_ne (by decide), List.count_append,
    List.count_eq_zero.mpr elsewhere, front, back]

theorem title_piece (page : Page) :
    ⟨("title" : Text).toList, (escapeMarkup page.title).toList⟩ ∈ pieces page.markup.toList := by
  have line : ("<title>" ++ escapeMarkup page.title ++ "</title>").toList ∈ page.texts := by
    simp [texts, front, head]
  obtain ⟨before, behind, parts⟩ := infix_of_line line
  have bare : .char '<' ∉ (escapeMarkup page.title).toList := (markup_bare page.title).absent (by decide)
  obtain ⟨more, cut⟩ := @piece_within ("title" : Text).toList
    ((escapeMarkup page.title).toList ++ .char '<' :: (("/title>" : Text).toList ++ behind)) (by decide) (by decide)
  have shape : page.markup.toList = before ++ .char '<' :: (("title" : Text).toList ++ .char '>' ::
      ((escapeMarkup page.title).toList ++ .char '<' :: (("/title>" : Text).toList ++ behind))) := by
    rw [markup_texts, ← parts]
    simp
  rw [shape, pieces_append, cut, List.splitOn_append_cons_self_of_not_mem bare]
  exact List.mem_append_right _ List.mem_cons_self

/-- There is one title element, and it holds the title. -/
theorem titles_exact (page : Page) : titles page.markup.toList = [page.title] := by
  have sole : ((pieces page.markup.toList).filter fun piece => piece.tag = ("title" : Text).toList).length = 1 := by
    rw [← page.title_tag_once, tags, List.count_eq_countP, List.countP_map, List.countP_eq_length_filter]
    exact congrArg List.length (List.filter_congr fun piece _ => by simp [Bool.beq_eq_decide_eq])
  obtain ⟨piece, found⟩ := List.length_eq_one_iff.mp sole
  have kept : _ ∈ (pieces page.markup.toList).filter fun piece => piece.tag = ("title" : Text).toList :=
    List.mem_filter.mpr ⟨page.title_piece, decide_eq_true rfl⟩
  rw [found, List.mem_singleton] at kept
  rw [titles, found, ← kept, List.map_singleton, decoded_markup]

/-- The values of a name, read in a document, are the texts that the roles of its elements give it. -/
theorem values_read {name : Text} (known : name ∈ Role.textNames) (page : Page) :
    (values name page.markup.toList).map decoded = page.lines.flatten.flatMap fun element =>
      (element.role.attributes.filter fun each => each.1 = name).map Prod.snd := by
  rw [values_exact known, List.map_flatMap]
  congr 1
  funext element
  rw [List.map_map]
  exact List.map_congr_left fun each _ => decoded_markup each.2

end Page

namespace Emitter
open Document

theorem page_made_from {emitter : Emitter} {links : LinkTable} {lines : List (List (Run Mark))}
    {title : Option Text} {page : Page} (made : emitter.page links lines title = .ok page) :
    ∀ element ∈ page.lines.flatten, element.MadeFrom emitter.defined links := by
  obtain ⟨after, emits⟩ := page_lines_emits (page_split made).1
  exact lines_elements_all run_made_from emits

/-- The document of any page: the preformatted part shows the texts of the lines, the title element holds the
chosen title, every value is bare of markup and is read as the text of a role, and roles are made of names
that are defined and of their links. -/
theorem page_faithful {emitter : Emitter} {links : LinkTable} {lines : List (List (Run Mark))}
    {title : Option Text} {page : Page} (made : emitter.page links lines title = .ok page) :
    decoded (shown (preformatted page.markup.toList)) = Text.intercalate "\n" (lines.map lineText) ∧
      titles page.markup.toList = [emitter.chosenTitle title] ∧
      (∀ name ∈ Role.textNames,
        (∀ value ∈ values name page.markup.toList, Text.Bare value) ∧
        (values name page.markup.toList).map decoded = page.lines.flatten.flatMap fun element =>
          (element.role.attributes.filter fun each => each.1 = name).map Prod.snd) ∧
      ∀ element ∈ page.lines.flatten, element.MadeFrom emitter.defined links := by
  obtain ⟨shownLines, chosen⟩ := page_split made
  obtain ⟨after, emits⟩ := page_lines_emits shownLines
  refine ⟨?_, ?_, fun name known => ⟨?_, page.values_read known⟩, page_made_from made⟩
  · rw [Page.shown_exact, lines_text emits]
  · rw [Page.titles_exact, chosen]
  · rw [Page.values_exact known]
    intro value member
    obtain ⟨element, -, inElement⟩ := List.mem_flatMap.mp member
    obtain ⟨each, -, rfl⟩ := List.mem_map.mp inElement
    exact markup_bare each.2

/-- Names, texts, links and a title that look like markup themselves. -/
theorem page_faithful_bracketed :
    let emitter : Emitter := ⟨{ Settings.default with title := some "<&>" }, ["A<b", "B"]⟩
    let links : LinkTable := LinkTable.empty.insert "A<b" ⟨some "x\"y&z.html", some "'tip'"⟩
    let lines : List (List (Run Mark)) :=
      [[⟨"A<b", .style .production⟩, ⟨": </pre>", .style .terminal⟩], [],
        [⟨" <i> B  A<b ", .style .production⟩, ⟨"", .style .comment⟩]]
    ∃ page, emitter.page links lines none = .ok page ∧
      decoded (shown (preformatted page.markup.toList)) = "A<b: </pre>\n\n <i> B  A<b " ∧
      titles page.markup.toList = [("<&>" : Text)] ∧
      (values "id" page.markup.toList).map decoded = [("A<b" : Text)] ∧
      (values "href" page.markup.toList).map decoded = (["x\"y&z.html", "#B", "#A<b"] : List Text) ∧
      (values "title" page.markup.toList).map decoded = [("'tip'" : Text)] := by
  intro emitter links lines
  have made : emitter.page links lines none = .ok ⟨"<&>",
      [[⟨.outward "A<b" "x\"y&z.html" "'tip'", Palette.defaultSwatch .production, "A<b"⟩,
        ⟨.plain, Palette.defaultSwatch .terminal, ": </pre>"⟩], [],
        [⟨.plain, Palette.defaultSwatch .production, " <i> "⟩,
          ⟨.reference "B", Palette.defaultSwatch .production, "B  "⟩,
          ⟨.reference "A<b", Palette.defaultSwatch .production, "A<b "⟩,
          ⟨.plain, Palette.defaultSwatch .comment, ""⟩]]⟩ := rfl
  obtain ⟨text, chosen, read, -⟩ := page_faithful made
  refine ⟨_, made, text.trans (by decide), chosen, ?_, ?_, ?_⟩
  · exact (read "id" (by decide)).2
  · exact (read "href" (by decide)).2
  · exact (read "title" (by decide)).2

end Emitter

end GrammarPage
