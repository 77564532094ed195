import GrammarPage.Interchange.File
import GrammarPage.Proofs.Interchange.ReadBack
import GrammarPage.Proofs.Json.Printed
import GrammarPage.Proofs.Text.Ascii

/-!
Grammar files read back. The document of a grammar has no numbers and names each member once, so the file
that holds it is read as that document, octet for octet. Halves of pairs are the exception: two that stand
together in a text are read as one character.
-/

namespace GrammarPage

open Json (Plain)

/-! The texts of a grammar. -/

/-- Texts without a half of a pair in any of them. -/
def Whole (texts : List Text) : Prop := ∀ text ∈ texts, text.Whole

instance (texts : List Text) : Decidable (Whole texts) :=
  inferInstanceAs (Decidable (∀ text ∈ texts, text.Whole))

def Trivia.texts (trivia : Trivia) : List Text := trivia.whitespace :: trivia.comment.toList

def Tree.ownTexts (tree : Tree) : List Text := tree.text?.toList ++ tree.trivia.texts

def Tree.texts (tree : Tree) : List Text := tree.walk.flatMap Tree.ownTexts

def Production.texts (production : Production) : List Text :=
  production.name.toList ++ production.comment.toList ++ production.body.toList.flatMap Tree.texts

def Link.texts (link : Link) : List Text := link.target.toList ++ link.title.toList

def LinkTable.texts (links : LinkTable) : List Text :=
  links.entries.flatMap fun entry => entry.1 :: entry.2.texts

def Grammar.texts (grammar : Grammar) : List Text :=
  grammar.name.toList ++ grammar.productions.flatMap Production.texts ++ grammar.links.texts

section Whole
variable {left right : List Text} {links : LinkTable} {name : Text} {link : Link}

theorem whole_append : Whole (left ++ right) ↔ Whole left ∧ Whole right := List.forall_mem_append

theorem whole_flat_map {item : Type} {texts : item → List Text} {items : List item} :
    Whole (items.flatMap texts) ↔ ∀ item ∈ items, Whole (texts item) := by
  simp only [Whole, List.mem_flatMap, forall_exists_index, and_imp]
  exact ⟨fun all item member text inItem => all text item member inItem,
    fun all text item member inItem => all item member text inItem⟩

theorem Tree.whole_children {tree : Tree} (whole : Whole tree.texts) :
    Whole tree.ownTexts ∧ ∀ child ∈ tree.children, Whole child.texts := by
  rw [texts, whole_flat_map, walk_all_iff] at whole
  exact whole.imp_right fun below child member => whole_flat_map.mpr (below child member)

theorem LinkTable.mem_of_find {entries : List (Text × Link)} (found : find? name entries = some link) :
    (name, link) ∈ entries := by
  induction entries with
  | nil => cases found
  | cons entry rest ih =>
      obtain ⟨key, first⟩ := entry
      rw [find?] at found
      split at found
      · subst key
        cases found
        exact List.mem_cons_self
      · exact List.mem_cons_of_mem _ (ih found)

theorem LinkTable.whole_get (whole : Whole links.texts) (found : links.get? name = some link) :
    Whole link.texts := by
  have entry := whole_flat_map.mp whole _ (mem_of_find found)
  exact fun text member => entry text (List.mem_cons_of_mem _ member)

end Whole

theorem text_or_null_plain {text : Option Text} (whole : Whole text.toList) : Plain (textOrNull text) := by
  cases text with
  | none => exact .null
  | some text => exact .str (whole text List.mem_cons_self)

/-- Members with names and values that are plain. -/
def PlainMembers (members : List (Text × Json)) : Prop :=
  ∀ member ∈ members, member.1.Whole ∧ Plain member.2

namespace PlainMembers
variable {left right : List (Text × Json)} {name : Text} {value : Json}

theorem nil : PlainMembers [] := fun _ member => absurd member List.not_mem_nil

theorem append (first : PlainMembers left) (second : PlainMembers right) : PlainMembers (left ++ right) :=
  List.forall_mem_append.mpr ⟨first, second⟩

theorem cons (named : name.Whole) (first : Plain value) (rest : PlainMembers right) :
    PlainMembers ((name, value) :: right) := List.forall_mem_cons.mpr ⟨⟨named, first⟩, rest⟩

theorem optional (named : name.Whole) {text : Option Text} (whole : Whole text.toList) :
    PlainMembers (optionalMember name text) := by
  cases text with
  | none => exact nil
  | some text => exact cons named (.str (whole text List.mem_cons_self)) nil

theorem flag (named : name.Whole) (flag : Bool) : PlainMembers (flagMember name flag) := by
  cases flag with
  | true => exact cons named (.bool true) nil
  | false => exact nil

theorem trivia {trivia : Trivia} (whole : Whole trivia.texts) : PlainMembers trivia.members := by
  obtain ⟨wholeSpace, wholeComment⟩ := List.forall_mem_cons.mp whole
  have space : PlainMembers
      (if trivia.whitespace = "" then [] else [("whitespace", .str trivia.whitespace)]) := by
    split
    · exact nil
    · exact cons (by decide) (.str wholeSpace) nil
  exact (space.append (optional (by decide) wholeComment)).append (flag (by decide) _)

theorem object {members : List (Text × Json)} (distinct : (members.map Prod.fst).Nodup)
    (plain : PlainMembers members) : Plain (.object members) :=
  .object distinct (fun member inside => (plain member inside).1) fun member inside => (plain member inside).2

end PlainMembers

/-! The names of members, in the order in which they are written. -/

theorem optional_names (name : Text) (text : Option Text) :
    ((optionalMember name text).map Prod.fst).Sublist [name] := by
  cases text <;> simp [optionalMember]

theorem flag_names (name : Text) (flag : Bool) : ((flagMember name flag).map Prod.fst).Sublist [name] := by
  cases flag <;> simp [flagMember]

theorem trivia_names (trivia : Trivia) : (trivia.members.map Prod.fst).Sublist triviaNames := by
  have space : ((if trivia.whitespace = "" then [] else
      [(("whitespace" : Text), Json.str trivia.whitespace)]).map Prod.fst).Sublist ["whitespace"] := by
    split <;> simp
  rw [Trivia.members, List.map_append, List.map_append]
  exact (space.append (optional_names "comment" _)).append (flag_names "newline" _)

namespace Tree

theorem kind_whole (kind : Kind) : kind.name.Whole := by
  rcases kind with which | which | _ | _
  · cases which <;> decide
  · cases which <;> decide
  · decide
  · decide

theorem parent_plain (kind : Kind) {slot : Text} {payload : Json} {trivia : Trivia}
    (apart : (("kind" : Text) :: slot :: triviaNames).Nodup) (named : slot.Whole) (plain : Plain payload)
    (whole : Whole trivia.texts) :
    Plain (.object (("kind", .str kind.name) :: (slot, payload) :: trivia.members)) :=
  PlainMembers.object (apart.sublist (((trivia_names trivia).cons_cons slot).cons_cons ("kind" : Text)))
    (.cons (by decide) (.str (kind_whole kind)) (.cons named plain (.trivia whole)))

theorem group_plain (kind : Kind) {items : List Json} {trivia : Trivia} (each : ∀ item ∈ items, Plain item)
    (whole : Whole trivia.texts) :
    Plain (.object (("kind", .str kind.name) :: ("children", .list items) :: trivia.members)) :=
  parent_plain kind (by decide) (by decide) (.list each) whole

theorem document_plain {tree : Tree} (whole : Whole tree.texts) : Plain tree.document := by
  induction tree using Tree.induct_children with
  | node tree ih =>
      obtain ⟨own, below⟩ := whole_children whole
      obtain ⟨text, trivia⟩ := whole_append.mp own
      have each (child : Tree) (member : child ∈ tree.children) : Plain child.document :=
        ih child member (below child member)
      cases tree with
      | leaf kind content around =>
          exact parent_plain (.leaf kind) (by decide) (by decide) (.str (text content List.mem_cons_self)) trivia
      | repeated repetition child around =>
          exact group_plain (.repetition repetition) (by simpa [children] using each) trivia
      | choice first rest around =>
          exact group_plain .choice (by simpa [children, documents_exact] using each) trivia
      | sequence first rest around =>
          exact group_plain .sequence (by simpa [children, documents_exact] using each) trivia

end Tree

theorem Production.document_plain {links : LinkTable} {production : Production} (linksWhole : Whole links.texts)
    (whole : Whole production.texts) : Plain (production.document links) := by
  obtain ⟨⟨wholeName, wholeComment⟩, wholeBody⟩ := by simpa only [texts, whole_append] using whole
  have bodyNames : ((bodyMember production.body).map Prod.fst).Sublist ["body"] := by
    cases production.body <;> simp [bodyMember]
  have linkNames : ((linkMembers (production.offered links)).map Prod.fst).Sublist ["link", "link_name"] := by
    cases production.offered links <;> simp [linkMembers]
  have plainBody : PlainMembers (bodyMember production.body) := by
    cases given : production.body with
    | none => exact .nil
    | some body =>
        have wholeTree := whole_flat_map.mp wholeBody body (by simp [given])
        exact .cons (by decide) (Tree.document_plain wholeTree) .nil
  have plainLink : PlainMembers (linkMembers (production.offered links)) := by
    cases given : production.offered links with
    | none => exact .nil
    | some link =>
        obtain ⟨name, -, found⟩ := Option.bind_eq_some_iff.mp given
        obtain ⟨target, title⟩ := whole_append.mp (LinkTable.whole_get linksWhole found)
        exact .cons (by decide) (text_or_null_plain target) (.cons (by decide) (text_or_null_plain title) .nil)
  refine PlainMembers.object (List.Nodup.sublist ?_ (by decide :
    (["name", "body", "comment", "starts_on_new_line", "link", "link_name"] : List Text).Nodup)) ?_
  · simp only [List.map_append, List.map_cons]
    exact (((bodyNames.cons_cons ("name" : Text)).append (optional_names "comment" _)).append
      (flag_names "starts_on_new_line" _)).append linkNames
  · exact (((PlainMembers.cons (by decide) (text_or_null_plain wholeName) plainBody).append
      (.optional (by decide) wholeComment)).append (.flag (by decide) _)).append plainLink

namespace Grammar

theorem document_plain {grammar : Grammar} (whole : Whole grammar.texts) : Plain grammar.document := by
  obtain ⟨⟨wholeName, wholeProductions⟩, wholeLinks⟩ := by simpa only [texts, whole_append] using whole
  refine PlainMembers.object (List.Nodup.sublist ((optional_names "name" grammar.name).cons_cons ("productions" : Text))
    (by decide)) (.cons (by decide) (.list fun item member => ?_) (.optional (by decide) wholeName))
  obtain ⟨production, known, rfl⟩ := List.mem_map.mp member
  exact Production.document_plain wholeLinks (whole_flat_map.mp wholeProductions production known)

end Grammar

namespace Interchange

theorem stage_ok {fault other value result : Type} {stage : Except fault value} {found : value}
    (made : stage = .ok found) (rename : fault → other) (next : value → Except other result) :
    (stage.mapError rename >>= next) = next found := by
  rw [made]
  rfl

/-- Octets are read in three stages, each from what the one before found. -/
theorem grammar_of_octets {octets : List UInt8} {text : List Char} {document : Json} {grammar : Grammar}
    (path : Path) (decodes : strictText octets = .ok text) (reads : Json.read text = .ok document)
    (loads : readGrammar document = .ok grammar) :
    grammarOfOctets path octets = .ok (nameAfter path grammar) := by
  rw [grammarOfOctets, stage_ok decodes, stage_ok reads, stage_ok loads]
  rfl

section Saved
variable {grammar : Grammar} (whole : Whole grammar.texts)
include whole

theorem file_printed : Json.Printed (fileText grammar).toList := by
  rw [fileText, String.toList_ofList]
  exact Json.file_text_printed (Grammar.document_plain whole)

theorem file_document : Json.read (fileText grammar).toList = .ok grammar.document := by
  rw [fileText, String.toList_ofList]
  exact Json.read_file_text (Grammar.document_plain whole)

/-- The octets of a grammar's file are those of its characters. -/
theorem file_decoded : strictText (fileText grammar).toUTF8.data.toList = .ok (fileText grammar).toList := by
  have printed := file_printed whole
  rw [fileText, String.toList_ofList] at printed ⊢
  refine strict_text_ascii (fun c member => ?_) fun turn => ?_
  · have inRange := printed c member
    simp only [Json.isPrinted, Json.isInk, Bool.or_eq_true, Bool.and_eq_true, decide_eq_true_eq] at inRange
    rcases inRange with rfl | ⟨-, high⟩
    · decide
    · omega
  · exact absurd (printed '\r' turn) (by decide)

theorem file_loaded (path : Path) :
    grammarOfFile path (.file (fileText grammar).toUTF8.data.toList) =
      .ok (nameAfter path ⟨grammar.productions, grammar.name, grammar.seeded⟩) := by
  have octets : (Look.file (fileText grammar).toUTF8.data.toList).octets =
      .ok (fileText grammar).toUTF8.data.toList := rfl
  rw [grammarOfFile, stage_ok octets,
    grammar_of_octets path (file_decoded whole) (file_document whole) grammar.read_grammar_document]

/-- The file of a grammar without halves of pairs is printable ASCII in lines with a line feed at the end, one
line for each row of the document, and every line two spaces further in for each list or object around it. It is
read as the document of the grammar, and so as what reading the document gives; a grammar without a name takes
the stem of the file's. -/
theorem file_read_back (path : Path) :
    Json.Printed (fileText grammar).toList ∧ (fileText grammar).toList.getLast? = some '\n' ∧
      (fileText grammar).toList = Json.textOfRows (Json.rows 0 [] [] grammar.document) ∧
      (∀ row ∈ Json.rows 0 [] [] grammar.document, row.Sound) ∧
      Json.read (fileText grammar).toList = .ok grammar.document ∧
      ∃ reloaded, readGrammar grammar.document = .ok reloaded ∧
        grammarOfFile path (.file (fileText grammar).toUTF8.data.toList) =
          .ok { reloaded with name := some (reloaded.name.getD path.stem) } := by
  have chars : (fileText grammar).toList = Json.fileText grammar.document := String.toList_ofList
  have sound := Json.rows_sound (Grammar.document_plain whole) 0 [] [] Json.front_nil .nil
  refine ⟨file_printed whole, ?_, chars.trans (Json.file_text_rows grammar.document), sound,
    file_document whole, _, grammar.read_grammar_document, file_loaded whole path⟩
  rw [chars, Json.fileText, List.getLast?_concat]

end Saved

/-- A text of marks, a line feed and a character above U+FFFF comes back from a file that gives no name. -/
theorem file_read_back_astral :
    let rule : Production := ⟨some "A", some (.leaf .terminal "\"\\\n𝄞" .bare), none, false⟩
    let grammar : Grammar := ⟨[rule], none, .empty⟩
    Whole grammar.texts ∧ Json.read (fileText grammar).toList = .ok grammar.document ∧
      ∃ reloaded, readGrammar grammar.document = .ok reloaded ∧
        grammarOfFile (Path.ofText "g.json") (.file (fileText grammar).toUTF8.data.toList) =
          .ok { reloaded with name := some (reloaded.name.getD "g") } := by
  intro rule grammar
  have whole : Whole grammar.texts := by decide
  have stem : (Path.ofText "g.json").stem = "g" := by decide
  obtain ⟨-, -, -, -, read, reloaded, loads, loaded⟩ := file_read_back whole (Path.ofText "g.json")
  rw [stem] at loaded
  exact ⟨whole, read, reloaded, loads, loaded⟩

end Interchange

end GrammarPage
