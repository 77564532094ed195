import GrammarPage.Proofs.Page.Faithful
import GrammarPage.Proofs.Text.Spacing

/-!
A run of names on a page, read back from its fragment of the document. Each word that is defined is one link,
with the blanks behind it, and what stands between two links is in one element at most.
-/

namespace GrammarPage

namespace Document

/-- An element as it is read: its kind, where it leads and the text in it. -/
structure Passage where
  kind : Text
  href : Option Text
  text : Text
  deriving DecidableEq

def Piece.passage (piece : Piece) : Passage :=
  ⟨Text.ofList (piece.tag.takeWhile (· ≠ .char ' ')), attribute? "href" piece.tag, decoded piece.text⟩

/-- The elements of a document, told by the tags that open them. -/
def passages (document : List CodePoint) : List Passage :=
  ((pieces document).filter fun piece => piece.tag.head? ≠ some (.char '/')).map Piece.passage

theorem pieces_single {tag text : List CodePoint} (opens : .char '<' ∉ tag) (closes : .char '>' ∉ tag)
    (bare : .char '<' ∉ text) :
    pieces (.char '<' :: (tag ++ .char '>' :: text)) = [⟨tag, text⟩] := by
  have inside : .char '<' ∉ tag ++ .char '>' :: text := by simp [opens, bare]
  rw [pieces, List.splitOn_cons_eq_if_modifyHead, if_pos (by rfl), List.tail_cons,
    List.splitOn_eq_singleton inside, List.map_singleton, piece_of_tag closes]

/-- A text that begins with a tag goes into no piece of the text in front of it. -/
theorem pieces_apart (left : List CodePoint) {rest : List CodePoint} (begins : rest.head?.all (· = .char '<') = true) :
    pieces (left ++ rest) = pieces left ++ pieces rest := by
  cases rest with
  | nil => rw [List.append_nil, show pieces [] = [] from rfl, List.append_nil]
  | cons c rest =>
      obtain rfl : c = '<' := by simpa using begins
      have alone := pieces_append [] rest
      rw [List.nil_append, show pieces [] = [] from rfl, List.nil_append] at alone
      rw [pieces_append, alone]

end Document

namespace Element
open Document

/-- Where an element leads, into the page or out of it. -/
def href? (element : Element) : Option Text := element.landmark?.bind Landmark.href

def passage (element : Element) : Passage := ⟨element.tag, element.href?, element.text⟩

/-- An element is two pieces: its own, and an empty one behind the tag that closes it. -/
theorem pieces_exact (element : Element) :
    pieces element.markup.toList =
      [⟨element.tagText, (escapeMarkup element.text).toList⟩, ⟨element.closingTag, []⟩] := by
  have inside : .char '<' ∉ element.tagText := element.tag_text_bare (by decide) (by decide)
  have ends : .char '>' ∉ element.tagText := element.tag_text_bare (by decide) (by decide)
  have text : .char '<' ∉ (escapeMarkup element.text).toList := (markup_bare element.text).absent (by decide)
  have opening := pieces_single inside ends text
  have closing : pieces (.char '<' :: (element.closingTag ++ [.char '>'])) = [⟨element.closingTag, []⟩] :=
    pieces_single (element.closing_tag_bare.absent (by decide)) (element.closing_tag_bare.absent (by decide))
      List.not_mem_nil
  have shape : element.markup.toList =
      .char '<' :: (element.tagText ++ .char '>' :: (escapeMarkup element.text).toList) ++
        .char '<' :: (element.closingTag ++ [.char '>']) := element.markup_exact
  rw [shape, pieces_apart _ (by simp), opening, closing]
  rfl

theorem tag_kind (element : Element) :
    Text.ofList (element.tagText.takeWhile (· ≠ .char ' ')) = element.tag := by
  have solid : ∀ c ∈ element.tag.toList, decide (c ≠ ' ') = true := fun c member =>
    decide_eq_true fun same => element.tag_solid (same ▸ member)
  have spaced : ∃ rest, entriesText element.entries = .char ' ' :: rest := by
    obtain ⟨role, swatch, text⟩ := element
    cases role <;> simp [entries, entriesText, attr]
  obtain ⟨rest, begins⟩ := spaced
  rw [tagText, begins, List.takeWhile_append_of_pos solid, List.takeWhile_cons_of_neg (by simp),
    List.append_nil, Text.of_list_to_list]

theorem tag_href (element : Element) : attribute? "href" element.tagText = element.href? := by
  rw [tagText, attribute_entries element.tag_bare element.tag_solid element.entries_safe]
  obtain ⟨role, swatch, text⟩ := element
  cases role <;> simp [entries, href?, landmark?, decoded_markup]

theorem piece_passage (element : Element) :
    Piece.passage ⟨element.tagText, (escapeMarkup element.text).toList⟩ = element.passage := by
  rw [Piece.passage, tag_kind, tag_href, decoded_markup]
  rfl

theorem tag_opens (element : Element) : element.tagText.head? ≠ some (.char '/') := by
  obtain ⟨role, swatch, text⟩ := element
  cases role <;> simp [tagText, tag]

end Element

namespace Page
open Document

theorem line_markup_cons (element : Element) (rest : List Element) :
    (lineMarkup (element :: rest)).toList = element.markup.toList ++ (lineMarkup rest).toList := by
  simp [lineMarkup, Text.to_list_join]

theorem line_markup_begins (line : List Element) : (lineMarkup line).toList.head?.all (· = .char '<') = true := by
  cases line with
  | nil => rfl
  | cons element rest => simp [line_markup_cons, Element.markup_exact]

/-- The elements of a fragment are read as they were made. -/
theorem passages_exact (line : List Element) :
    passages (lineMarkup line).toList = line.map Element.passage := by
  induction line with
  | nil => rfl
  | cons element rest ih =>
      have closing : element.closingTag.head? = some (.char '/') := rfl
      rw [passages] at ih ⊢
      rw [line_markup_cons, pieces_apart _ (line_markup_begins rest), Element.pieces_exact, List.filter_append,
        List.map_append, ih]
      simp [element.tag_opens, closing, Element.piece_passage]

end Page

section Words
open Document Text

/-- The link of a word: it covers the blanks behind the word as well. -/
def Text.Word.link (word : Word) : Passage :=
  ⟨"a", some ("#" ++ Text.ofList word.name), Text.ofList word.chars⟩

def Text.Word.known (defined : List Text) (word : Word) : Bool :=
  defined.contains (Text.ofList word.name)

/-- Where the characters of a word lead. -/
def Text.Word.href? (defined : List Text) (word : Word) : Option Text :=
  if word.known defined then some ("#" ++ Text.ofList word.name) else none

/-- The characters of an element, each with where it leads. -/
def Document.Passage.leads (passage : Passage) : List (CodePoint × Option Text) :=
  passage.text.toList.map (·, passage.href)

/-- Elements that link the words of a text which are defined, and nothing else. -/
structure LinksWords (defined : List Text) (front : List CodePoint) (row : List Word)
    (found : List Passage) : Prop where
  links : found.filter (·.href.isSome) = (row.filter (·.known defined)).map Word.link
  covers : found.flatMap Passage.leads =
    front.map (·, none) ++ row.flatMap fun word => word.chars.map (·, word.href? defined)
  spans : ∀ passage ∈ found, passage.href = none → passage.kind = "span"
  apart : found.IsChain fun left right => left.href.isSome ∨ right.href.isSome

/-- The element of text that leads nowhere; there is none for no text. -/
def unlinked (text : List CodePoint) : List Passage := if text = [] then [] else [⟨"span", none, Text.ofList text⟩]

namespace LinksWords
variable {defined : List Text} {front : List CodePoint} {word : Word} {row : List Word} {found : List Passage}

theorem nil : LinksWords defined front [] (unlinked front) := by
  rw [unlinked]
  split
  · case isTrue empty =>
      subst empty
      exact ⟨rfl, rfl, List.forall_mem_nil _, .nil⟩
  · refine ⟨rfl, ?_, ?_, .singleton _⟩
    · simp [Passage.leads]
    · exact List.forall_mem_singleton.mpr fun _ => rfl

/-- A defined word ends the text in front of it. -/
theorem link (known : word.known defined = true) (later : LinksWords defined [] row found) :
    LinksWords defined front (word :: row) (unlinked front ++ word.link :: found) := by
  have text : LinksWords defined front [] (unlinked front) := .nil
  refine ⟨?_, ?_, ?_, ?_⟩
  · rw [List.filter_append, text.links, List.filter_cons_of_pos (by rfl), later.links,
      List.filter_cons_of_pos known]
    rfl
  · have own : word.link.leads = word.chars.map (·, word.href? defined) := by
      simp [Passage.leads, Word.link, Word.href?, known]
    rw [List.flatMap_append, text.covers, List.flatMap_cons, later.covers, own]
    simp
  · refine List.forall_mem_append.mpr ⟨text.spans, List.forall_mem_cons.mpr ⟨?_, later.spans⟩⟩
    exact fun none => by simp [Word.link] at none
  · have linked : word.link.href.isSome = true := rfl
    refine List.isChain_append.mpr ⟨text.apart, ?_, ?_⟩
    · exact List.isChain_cons.mpr ⟨fun _ _ => .inl linked, later.apart⟩
    · rintro left - right first
      obtain rfl := Option.mem_some.mp first
      exact .inr linked

/-- A word that is not defined is taken up by the text in front of it. -/
theorem pass (unknown : word.known defined = false)
    (later : LinksWords defined (front ++ word.chars) row found) :
    LinksWords defined front (word :: row) found := by
  refine ⟨?_, ?_, later.spans, later.apart⟩
  · rw [later.links, List.filter_cons_of_neg (by simp [unknown])]
  · rw [later.covers]
    simp [Word.href?, unknown]

end LinksWords

namespace Emitter

theorem plain_passages (swatch : Swatch) (text : List CodePoint) :
    (plainElements swatch (Text.ofList text)).map Element.passage = unlinked text := by
  rw [plainElements, unlinked]
  by_cases empty : text = []
  · simp [empty]
  · simp [empty, Element.passage, Element.tag, Element.href?, Element.landmark?]

/-- Invariant of the loop over the words: the text that is still to be shown stands in front of those to come. -/
theorem word_passages (defined : List Text) (swatch : Swatch) (before : List CodePoint) {row : List Word}
    (sound : ∀ word ∈ row, word.Sound) :
    LinksWords defined before row ((wordElements defined swatch (Text.ofList before)
      (row.map fun word => Text.ofList word.chars)).map Element.passage) := by
  induction row generalizing before with
  | nil =>
      rw [List.map_nil, wordElements, plain_passages]
      exact .nil
  | cons word rest ih =>
      obtain ⟨here, later⟩ := List.forall_mem_cons.mp sound
      have name : trimmed (Text.ofList word.chars) = Text.ofList word.name := by
        rw [trimmed, Text.to_list_of_list, trim_word here]
      rw [List.map_cons, wordElements, name]
      cases known : defined.contains (Text.ofList word.name) with
      | true =>
          rw [if_pos rfl, List.map_append, List.map_cons, plain_passages]
          exact .link known (ih [] later)
      | false =>
          rw [if_neg (by simp), ← Text.of_list_append]
          exact .pass known (ih (before ++ word.chars) later)

theorem words_of_spacing (text : Text) {front : List CodePoint} {row : List Word}
    (cut : spacing text.toList = (front, row)) : wordsOf text = (wordPieces front row).map Text.ofList := by
  rw [wordsOf, words_spacing, cut]

/-- The blanks in front of the words name nothing, so they are text in front of the first word. -/
theorem run_passages {defined : List Text} (nonempty : ("" : Text) ∉ defined) (swatch : Swatch) {text : Text}
    {front : List CodePoint} {row : List Word} (inWords : InWords text.toList front row) :
    LinksWords defined front row ((wordElements defined swatch "" (wordsOf text)).map Element.passage) := by
  have shown := word_passages defined swatch front inWords.words
  rw [words_of_spacing text (in_words_iff.mp inWords), wordPieces, List.map_append, List.map_map]
  by_cases none : front = []
  · subst none
    exact shown
  · have unnamed : trimmed (Text.ofList front) = "" := by
      rw [trimmed, Text.to_list_of_list, trim_blank inWords.front, Text.of_list_nil]
    have unknown : defined.contains "" = false := by simpa using nonempty
    rw [if_neg none, List.map_singleton, List.singleton_append, wordElements, unnamed, unknown]
    simpa [Function.comp_def] using shown

/-- A run in the style of productions that is no new definition is shown as it stands. Its links are the words
that are defined, each with the blanks behind it; there is no other link, and no two elements without a link
stand side by side. -/
theorem run_links_words {emitter : Emitter} (links : LinkTable) {anchored : List Text} {opens : Bool}
    {run : Run Mark} (name : run.mark = .style .production)
    (colour : (emitter.settings.palette .production).isSome) (some : emitter.defined ≠ [])
    (nonempty : ("" : Text) ∉ emitter.defined)
    (again : opens = true → trimmed run.text ∈ emitter.defined → trimmed run.text ∈ anchored) :
    ∃ elements front row, emitter.runElements links anchored opens run = .ok (elements, anchored) ∧
      (∀ others behind, InWords run.text.toList others behind ↔ others = front ∧ behind = row) ∧
      decoded (Document.shown (Page.lineMarkup elements).toList) = run.text ∧
      LinksWords emitter.defined front row (passages (Page.lineMarkup elements).toList) := by
  obtain ⟨text, mark⟩ := run
  obtain rfl := name
  obtain ⟨swatch, found⟩ := Option.isSome_iff_exists.mp colour
  have old : (opens && emitter.defined.contains (trimmed text) && !anchored.contains (trimmed text)) = false := by
    cases opens with
    | false => rfl
    | true => by_cases known : trimmed text ∈ emitter.defined <;> simp [known, again rfl]
  have made : emitter.runElements links anchored opens ⟨text, .style .production⟩ =
      .ok (wordElements emitter.defined swatch "" (wordsOf text), anchored) := by
    simp only [runElements, swatch?, found, Option.map_some, old]
    simp [some]
  refine ⟨_, (spacing text.toList).1, (spacing text.toList).2, made, fun others behind => ?_, ?_, ?_⟩
  · rw [in_words_iff, Prod.ext_iff]
    exact and_congr eq_comm eq_comm
  · rw [Page.line_shown, decoded, Text.unescaped_escaped, run_text (run_elements_emits made),
      Text.of_list_to_list]
  · rw [Page.passages_exact]
    exact run_passages nonempty swatch (spacing_in_words text.toList)

/-- A name of several words that has its anchor already, two of them names themselves. -/
theorem run_links_words_repeated :
    let emitter : Emitter := ⟨Settings.default, ["a", "<b>", "a x <b>"]⟩
    let run : Run Mark := ⟨"\ta x <b> ", .style .production⟩
    trimmed run.text ∈ emitter.defined ∧
      ∃ elements, emitter.runElements .empty ["a x <b>"] true run = .ok (elements, ["a x <b>"]) ∧
        decoded (Document.shown (Page.lineMarkup elements).toList) = "\ta x <b> " ∧
        (passages (Page.lineMarkup elements).toList).filter (·.href.isSome) =
          [⟨"a", some "#a", "a "⟩, ⟨"a", some "#<b>", "<b> "⟩] := by
  intro emitter run
  have known : trimmed run.text ∈ emitter.defined := by decide
  obtain ⟨elements, front, row, made, cut, text, linked⟩ :=
    @run_links_words emitter .empty ["a x <b>"] true run rfl rfl (by decide) (by decide) (by decide)
  obtain ⟨rfl, rfl⟩ := (cut [.char '\t'] [⟨[.char 'a'], [.char ' ']⟩, ⟨[.char 'x'], [.char ' ']⟩,
    ⟨[.char '<', .char 'b', .char '>'], [.char ' ']⟩]).mp (in_words_iff.mpr (by decide))
  exact ⟨known, elements, made, text, linked.links.trans (by decide)⟩

end Emitter

end Words

end GrammarPage
