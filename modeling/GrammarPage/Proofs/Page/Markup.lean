import Mathlib.Data.List.Basic
import Mathlib.Data.List.Forall2
import GrammarPage.Proofs.Page.Document

/-!
The markup of a page, read as a document. An element is a tag with attributes that are bare of markup, so
the tag ends where it was made to end and every value is read under its own name.
-/

namespace GrammarPage

namespace Document

theorem attributes_attr {before rest : List CodePoint} {name value : Text} (bare : Text.Bare before)
    (nameBare : Text.Bare name.toList) (valueBare : Text.Bare value.toList) :
    attributes (before ++ (Element.attr name value).toList ++ rest) =
      (before ++ key name, value.toList) :: attributes rest := by
  have front : .char '\x22' ∉ before ++ key name := by
    have quote : Text.isMarkup '\x22' = true := by decide
    simp [key, bare.absent quote, nameBare.absent quote]
  have inner : .char '\x22' ∉ value.toList := valueBare.absent (by decide)
  have parts : before ++ (Element.attr name value).toList ++ rest =
      (before ++ key name) ++ .char '\x22' :: (value.toList ++ .char '\x22' :: rest) := by
    simp [Element.attr, key]
  rw [attributes, parts, List.splitOn_append_cons_self_of_not_mem front,
    List.splitOn_append_cons_self_of_not_mem inner, quotedValues, ← attributes]

end Document

namespace Element
open Document

def tag (element : Element) : Text :=
  match element.role with
  | .plain | .anchor _ => "span"
  | .outward _ _ _ | .reference _ => "a"

/-- The attributes of an element, their values as they are written. -/
def entries (element : Element) : List (Text × Text) :=
  match element.role with
  | .plain => [("style", element.swatch.css)]
  | .anchor name => [("id", escapeMarkup name), ("style", element.swatch.css)]
  | .outward name target title =>
      [("id", escapeMarkup name), ("href", escapeMarkup target), ("title", escapeMarkup title),
        ("style", element.swatch.css)]
  | .reference name =>
      [("href", escapeMarkup ("#" ++ name)),
        ("style", element.swatch.css ++ ";text-decoration:none")]

def attributeNames : List Text := ["id", "href", "title", "style"]

/-- An attribute with nothing in it that could be taken for markup. -/
structure Safe (entry : Text × Text) : Prop where
  known : entry.1 ∈ attributeNames
  value : Text.Bare entry.2.toList

theorem names_bare : ∀ name ∈ attributeNames, Text.Bare name.toList := by
  simp only [attributeNames, List.mem_cons, List.not_mem_nil, or_false]
  rintro name (rfl | rfl | rfl | rfl)
  · decide
  · decide
  · decide
  · decide

theorem names_solid : ∀ name ∈ attributeNames, .char ' ' ∉ name.toList := by
  simp only [attributeNames, List.mem_cons, List.not_mem_nil, or_false]
  rintro name (rfl | rfl | rfl | rfl)
  · decide
  · decide
  · decide
  · decide

theorem number_bare (n : Nat) : Text.Bare (toString n : Text).toList := by
  have digits : (toString n).toList = Nat.toDigits 10 n := String.toList_ofList
  rw [Text.to_list_of_string, digits, Text.Bare, List.any_eq_false]
  intro point member markup
  obtain ⟨c, inDigits, rfl⟩ := List.mem_map.mp member
  have digit : c.isDigit = true := Nat.isDigit_of_mem_toDigits (by decide) (by decide) inDigits
  simp only [Text.isMarkup, Bool.or_eq_true, decide_eq_true_eq, CodePoint.char.injEq] at markup
  rcases markup with ((rfl | rfl) | rfl) | rfl
  · exact absurd digit (by decide)
  · exact absurd digit (by decide)
  · exact absurd digit (by decide)
  · exact absurd digit (by decide)

theorem bare_append {left right : Text} (first : Text.Bare left.toList)
    (second : Text.Bare right.toList) : Text.Bare (left ++ right).toList := by
  rw [Text.to_list_append]
  exact first.append second

theorem css_bare (swatch : Swatch) : Text.Bare swatch.css.toList := by
  have start : Text.Bare ("color:rgb(" : Text).toList := by decide
  have comma : Text.Bare ("," : Text).toList := by decide
  have close : Text.Bare (")" : Text).toList := by decide
  have slant : Text.Bare (if swatch.italic then (";font-style:italic" : Text) else "").toList := by
    cases swatch.italic <;> decide
  have red := bare_append (bare_append start (number_bare swatch.red.toNat)) comma
  have green := bare_append (bare_append red (number_bare swatch.green.toNat)) comma
  have blue := bare_append (bare_append green (number_bare swatch.blue.toNat)) close
  exact bare_append blue slant

theorem entries_safe (element : Element) : ∀ entry ∈ element.entries, Safe entry := by
  have css := css_bare element.swatch
  have id : ("id" : Text) ∈ attributeNames := by decide
  have href : ("href" : Text) ∈ attributeNames := by decide
  have title : ("title" : Text) ∈ attributeNames := by decide
  have style : ("style" : Text) ∈ attributeNames := by decide
  intro entry member
  rw [entries] at member
  split at member
  · obtain rfl := List.mem_singleton.mp member
    exact ⟨style, css⟩
  · rcases List.mem_pair.mp member with rfl | rfl
    · exact ⟨id, markup_bare _⟩
    · exact ⟨style, css⟩
  · simp only [List.mem_cons, List.not_mem_nil, or_false] at member
    rcases member with rfl | rfl | rfl | rfl
    · exact ⟨id, markup_bare _⟩
    · exact ⟨href, markup_bare _⟩
    · exact ⟨title, markup_bare _⟩
    · exact ⟨style, css⟩
  · rcases List.mem_pair.mp member with rfl | rfl
    · exact ⟨href, markup_bare _⟩
    · exact ⟨style, bare_append css (by decide)⟩

def entriesText (entries : List (Text × Text)) : List CodePoint :=
  entries.flatMap fun entry => (attr entry.1 entry.2).toList

theorem enclosed_exact (tag attributes text : Text) :
    (enclosed tag attributes text).toList = .char '<' :: ((tag.toList ++ attributes.toList)
      ++ .char '>' :: (escapeMarkup text).toList) ++ .char '<' :: (.char '/' :: tag.toList ++ [.char '>']) := by
  simp [enclosed]

theorem markup_exact (element : Element) :
    element.markup.toList = .char '<' :: ((element.tag.toList ++ entriesText element.entries)
      ++ .char '>' :: (escapeMarkup element.text).toList)
      ++ .char '<' :: (.char '/' :: element.tag.toList ++ [.char '>']) := by
  obtain ⟨role, swatch, text⟩ := element
  cases role <;> simp [markup, enclosed_exact, tag, entries, entriesText, textAttr]

theorem entries_text_bare {mark : CodePoint} (markup : Text.isMarkup mark = true) (other : mark ≠ '\x22')
    {entries : List (Text × Text)} (safe : ∀ entry ∈ entries, Safe entry) :
    mark ∉ entriesText entries := by
  intro member
  obtain ⟨entry, inEntries, inText⟩ := List.mem_flatMap.mp member
  have noName := (names_bare _ (safe entry inEntries).known).absent markup
  have noValue := (safe entry inEntries).value.absent markup
  have blank : mark ≠ ' ' := by
    rintro rfl
    exact absurd markup (by decide)
  have equals : mark ≠ '=' := by
    rintro rfl
    exact absurd markup (by decide)
  simp [attr, noName, noValue, blank, equals, other] at inText

theorem attributes_entries (before : List CodePoint) (bare : Text.Bare before)
    (entry : Text × Text) (rest : List (Text × Text))
    (safe : ∀ each ∈ entry :: rest, Safe each) :
    attributes (before ++ entriesText (entry :: rest)) =
      (before ++ key entry.1, entry.2.toList) :: rest.map fun each => (key each.1, each.2.toList) := by
  have here := safe entry List.mem_cons_self
  induction rest generalizing before entry with
  | nil =>
      have only : entriesText [entry] = (attr entry.1 entry.2).toList ++ [] := by simp [entriesText]
      rw [only, ← List.append_assoc, attributes_attr bare (names_bare _ here.known) here.value]
      rfl
  | cons next rest ih =>
      have later : ∀ each ∈ next :: rest, Safe each := fun each member =>
        safe each (List.mem_cons_of_mem _ member)
      have parts : entriesText (entry :: next :: rest) =
          (attr entry.1 entry.2).toList ++ entriesText (next :: rest) := rfl
      have behind := ih [] rfl next later (later next List.mem_cons_self)
      rw [List.nil_append, List.nil_append] at behind
      rw [parts, ← List.append_assoc, attributes_attr bare (names_bare _ here.known) here.value, behind]
      rfl

/-- A value is found under its own name only. -/
theorem key_found {before : List CodePoint} {name other : Text} (solid : .char ' ' ∉ before)
    (otherSolid : .char ' ' ∉ other.toList) :
    (key name).isSuffixOf (before ++ key other) = decide (other = name) := by
  have shape : ∀ name, key name = .char ' ' :: (name.toList ++ [.char '=']) := fun name => by simp [key]
  rw [Bool.eq_iff_iff, List.isSuffixOf_iff_suffix, decide_eq_true_iff]
  constructor
  · rintro ⟨front, same⟩
    rw [shape, shape] at same
    -- Both sides are cut at their last space, so what follows it is the same.
    have tailSolid : .char ' ' ∉ other.toList ++ [.char '='] := by simp [otherSolid]
    obtain ⟨-, -, tails⟩ := (List.append_cons_inj_of_notMem solid tailSolid).mp same.symm
    exact Text.to_list_inj.mp (List.append_cancel_right tails)
  · rintro rfl
    exact List.suffix_append before (key other)

theorem values_entries {name : Text} {before : List CodePoint} (bare : Text.Bare before) (solid : .char ' ' ∉ before)
    {entries : List (Text × Text)} (safe : ∀ entry ∈ entries, Safe entry) :
    valuesIn name (before ++ entriesText entries) =
      (entries.filter fun entry => entry.1 = name).map fun entry => entry.2.toList := by
  cases entries with
  | nil =>
      rw [entriesText, List.flatMap_nil, List.append_nil]
      exact values_bare name bare
  | cons entry rest =>
      have later : ∀ each ∈ rest, (key name).isSuffixOf (key each.1) = decide (each.1 = name) := by
        intro each member
        have known := (safe each (List.mem_cons_of_mem _ member)).known
        exact key_found List.not_mem_nil (names_solid _ known)
      have first := @key_found before name entry.1 solid (names_solid _ (safe entry List.mem_cons_self).known)
      have others : (rest.map fun each => (key each.1, each.2.toList)).filter
            (fun each => (key name).isSuffixOf each.1) =
          (rest.filter fun each => each.1 = name).map fun each => (key each.1, each.2.toList) := by
        rw [List.filter_map]
        exact congrArg (List.map _) (List.filter_congr later)
      rw [valuesIn, attributes_entries before bare entry rest safe, List.filter_cons, List.filter_cons, first,
        others]
      cases decide (entry.1 = name) with
      | true => simp
      | false => simp

theorem attribute_entries {name : Text} {before : List CodePoint} (bare : Text.Bare before)
    (solid : .char ' ' ∉ before) {entries : List (Text × Text)} (safe : ∀ entry ∈ entries, Safe entry) :
    attribute? name (before ++ entriesText entries) =
      (entries.find? fun entry => entry.1 = name).map fun entry => decoded entry.2.toList := by
  rw [attribute_values, values_entries bare solid safe, List.head?_map, List.head?_filter, Option.map_map]
  rfl

def tagText (element : Element) : List CodePoint := element.tag.toList ++ entriesText element.entries

theorem tag_bare (element : Element) : Text.Bare element.tag.toList := by
  rw [tag]
  split <;> decide

theorem tag_solid (element : Element) : .char ' ' ∉ element.tag.toList := by
  rw [tag]
  split <;> decide

theorem tag_landmark (element : Element) :
    Piece.landmark? ⟨element.tagText, (escapeMarkup element.text).toList⟩ = element.landmark? := by
  have read : ∀ name, attribute? name element.tagText =
      (element.entries.find? fun entry => entry.1 = name).map fun entry => decoded entry.2.toList :=
    fun name => attribute_entries element.tag_bare element.tag_solid element.entries_safe
  rw [Piece.landmark?, decoded_markup, read, read]
  obtain ⟨role, swatch, text⟩ := element
  cases role <;> simp [entries, landmark?, decoded_markup]

/-- Reading the markup of an element gives what the element was made to link. -/
theorem reads_element (element : Element) : Reads element.markup.toList element.landmark?.toList := by
  have inside : ∀ mark, Text.isMarkup mark = true → mark ≠ '\x22' → mark ∉ element.tagText := by
    intro mark markup other member
    rcases List.mem_append.mp member with inName | inEntries
    · exact element.tag_bare.absent markup inName
    · exact entries_text_bare markup other element.entries_safe inEntries
  have text : .char '<' ∉ (escapeMarkup element.text).toList := (markup_bare element.text).absent (by decide)
  -- No value holds a bracket, so the tag ends where it was made to end.
  have slash : Text.Bare [.char '/'] := by decide
  have closing : Silent (.char '/' :: element.tag.toList) := silent_bare (slash.append element.tag_bare)
  intro rest
  calc landmarksIn (element.markup.toList ++ rest)
      = landmarksIn (.char '<' :: (element.tagText ++ .char '>' :: (escapeMarkup element.text).toList)
          ++ .char '<' :: (.char '/' :: element.tag.toList ++ [.char '>'] ++ rest)) := by
        rw [markup_exact, List.append_assoc]
        rfl
    _ = element.landmark?.toList
          ++ landmarksIn (.char '<' :: (.char '/' :: element.tag.toList ++ [.char '>'] ++ rest)) := by
        rw [landmarks_in_tag (inside '<' (by decide) (by decide)) (inside '>' (by decide) (by decide))
          text, tag_landmark]
    _ = element.landmark?.toList ++ landmarksIn rest :=
        congrArg (element.landmark?.toList ++ ·) (reads_silent closing rest)

end Element

namespace Page
open Document

theorem reads_line (line : List Element) : Reads (lineMarkup line).toList (landmarksOf line) := by
  induction line with
  | nil => exact .nil
  | cons element rest ih =>
      have parts : (lineMarkup (element :: rest)).toList =
          element.markup.toList ++ (lineMarkup rest).toList := by
        simp [lineMarkup, Text.to_list_join]
      have found : landmarksOf (element :: rest) = element.landmark?.toList ++ landmarksOf rest := by
        rw [landmarksOf, List.filterMap_cons]
        cases element.landmark? <;> rfl
      rw [parts, found]
      exact element.reads_element.append ih

/-- Texts that are read one by one. -/
abbrev ReadsEach (texts : List Text) (found : List (List Landmark)) : Prop :=
  List.Forall₂ (fun text here => Reads text.toList here) texts found

theorem reads_joined {texts : List Text} {found : List (List Landmark)}
    (each : ReadsEach texts found) :
    Reads (Text.intercalate "\n" texts).toList found.flatten := by
  induction each with
  | nil => exact .nil
  | @cons text here texts found reads rest ih =>
      cases rest with
      | nil => simpa using reads
      | @cons next there texts found second others =>
          rw [Text.intercalate_cons_cons, Text.to_list_append, Text.to_list_append, List.flatten_cons]
          -- A line end belongs to the text behind a closing tag.
          have lineEnd : Reads ("\n" : Text).toList [] := reads_text (by decide)
          have start := reads.append lineEnd
          rw [List.append_nil] at start
          exact start.append ih

theorem reads_bare_tag {text tag : Text} (shape : text = "<" ++ tag ++ ">") (silent : Silent tag.toList) :
    Reads text.toList [] := by
  have reads := reads_silent silent
  rw [shape]
  simpa using reads

theorem reads_title (title : Text) :
    Reads ("<title>" ++ escapeMarkup title ++ "</title>").toList [] := by
  have opening : Reads ("<title>" : Text).toList [] := @reads_bare_tag _ "title" (by decide) (by decide)
  have closing : Reads ("</title>" : Text).toList [] := @reads_bare_tag _ "/title" (by decide) (by decide)
  have text : Reads (escapeMarkup title).toList [] :=
    reads_text ((markup_bare title).absent (by decide))
  rw [Text.to_list_append, Text.to_list_append]
  exact (opening.append text).append closing

theorem reads_head (title : Text) : ReadsEach (head title) (List.replicate 8 []) := by
  refine .cons (@reads_bare_tag _ "!DOCTYPE html" (by decide) (by decide)) ?_
  refine .cons (@reads_bare_tag _ "html" (by decide) (by decide)) ?_
  refine .cons (@reads_bare_tag _ "head" (by decide) (by decide)) ?_
  refine .cons (@reads_bare_tag _ "meta charset=\"utf-8\"" (by decide +kernel) (by decide +kernel)) ?_
  refine .cons (reads_title title) ?_
  refine .cons (@reads_bare_tag _ "/head" (by decide) (by decide)) ?_
  refine .cons (@reads_bare_tag _ "body" (by decide) (by decide)) ?_
  exact .cons (@reads_bare_tag _ "pre style=\"font-family:Consolas,monospace\"" (by decide +kernel) (by decide +kernel)) .nil

theorem reads_foot : ReadsEach foot (List.replicate 4 []) := by
  refine .cons (@reads_bare_tag _ "/pre" (by decide) (by decide)) ?_
  refine .cons (@reads_bare_tag _ "/body" (by decide) (by decide)) ?_
  refine .cons (@reads_bare_tag _ "/html" (by decide) (by decide)) ?_
  exact .cons .nil .nil

/-- A document links exactly what the elements of its page were made to link. -/
theorem landmarks_markup (page : Page) : landmarks page.markup = landmarksOf page.lines.flatten := by
  have lines : ReadsEach (page.lines.map lineMarkup) (page.lines.map landmarksOf) := by
    rw [ReadsEach, List.forall₂_map_left_iff, List.forall₂_map_right_iff, List.forall₂_same]
    exact fun line _ => reads_line line
  have texts := List.rel_append (List.rel_append (reads_head page.title) lines) reads_foot
  have found : (page.lines.map landmarksOf).flatten = landmarksOf page.lines.flatten :=
    List.filterMap_flatten.symm
  rw [landmarks, markup, (reads_joined texts).whole, List.flatten_append, List.flatten_append, found]
  simp

end Page

end GrammarPage
