import GrammarPage.Proofs.Command.Course
import GrammarPage.Proofs.Files.Folder

/-!
What a run writes. A run that fails, helps or lists leaves every file as it was. Any other comes to the page of the
authority, with the links of the copy if one is given and agrees, and hands that over: as the one file it is told
to write, or on the standard output.
-/

namespace GrammarPage.Command

variable {look : Text → Look} {edition : Edition} {arguments : List Text} {options : Options} {outcome : Outcome}
  {folder : Folder} {broken : Folder → Text → Folder}

/-- The folder after a run, given what is left where a write breaks off. -/
def Outcome.leaves (broken : Folder → Text → Folder) (outcome : Outcome) (folder : Folder) : Folder :=
  match outcome.written, outcome.ending with
  | some (path, text), _ => folder.write path text.toUTF8.toList
  | none, .escaped (.brokenWrite path _) => broken folder path
  | none, _ => folder

/-- A run that only tells something: what the command is, or what the authority holds. -/
def OnlyTells (edition : Edition) (arguments : List Text) : Prop :=
  parse edition arguments = .error .help ∨ ∃ options, parse edition arguments = .ok options ∧ options.listProductions

/-- The page is handed over: as the one file that is written, or else alone on the output. -/
structure HandedOver (broken : Folder → Text → Folder) (folder : Folder) (options : Options) (text : String)
    (outcome : Outcome) : Prop where
  shown : options.output = "" → outcome.written = none ∧ textOfLines outcome.printed = text ++ "\n"
  saved : options.output ≠ "" → outcome.printed = [] ∧
    ∃ path, path = (Path.ofText options.output).text ∧ outcome.written = some (path, text) ∧
      (∀ place, (folder.find path).1 = some place →
        (outcome.leaves broken folder).look path = .file text.toUTF8.toList) ∧
      ∀ other, (folder.find path).1 ≠ some other → (outcome.leaves broken folder).file? other = folder.file? other

theorem leaves_unwritten (steady : ∀ path, broken folder path = folder) (unwritten : outcome.written = none) :
    outcome.leaves broken folder = folder := by
  rw [Outcome.leaves, unwritten]
  split
  · contradiction
  · exact steady _
  · rfl

theorem text_of_line (text : String) : textOfLines [text] = text ++ "\n" := by
  simp [textOfLines, String.join]

/-- A run that fails or lists writes nothing. -/
theorem Course.unwritten (course : Course look options outcome)
    (told : outcome.ending ≠ .exit 0 ∨ options.listProductions) : outcome.written = none := by
  cases course with
  | unsettled _ fails | unread _ _ fails | uncopied _ _ _ fails => exact fails.written
  | listed | mismatched => rfl
  | rendered rendered delivered =>
      obtain ⟨prepared, -, -⟩ := rendered
      cases delivered with
      | shown | unshown | unwritable | broken => rfl
      | written =>
          rcases told with failed | asked
          · exact absurd rfl failed
          · cases prepared.unasked.symm.trans asked

theorem Course.handed_over (course : Course look options outcome)
    (within : ∀ path, (folder.find path).1.isSome → look path = folder.look path)
    (ended : outcome.ending = .exit 0) (unasked : ¬ options.listProductions) :
    ∃ (page : Page) (text : String), Rendered look options page ∧ page.markup = text ∧
      HandedOver broken folder options text outcome := by
  cases course with
  | unsettled _ fails | unread _ _ fails | uncopied _ _ _ fails => exact absurd ended fails.ending
  | listed _ _ _ asked => exact absurd asked unasked
  | mismatched => cases ended
  | @rendered page _ rendered delivered =>
      cases delivered with
      | unshown | unwritable | broken => cases ended
      | @shown text told unnamed encodes =>
          exact ⟨page, text, rendered, encodes, fun _ => ⟨rfl, text_of_line _⟩, fun named => absurd unnamed named⟩
      | @written text told named writable encodes =>
          refine ⟨page, text, rendered, encodes, fun unnamed => absurd unnamed named,
            fun _ => ⟨rfl, _, rfl, rfl, ?_, ?_⟩⟩
          · intro place leads
            rw [within _ (leads ▸ rfl)] at writable
            exact Folder.look_write leads writable _
          · intro other apart
            exact Folder.file_write apart _

/-- With a page that has an encoding and a place for it a run does not fail. -/
theorem Course.succeeds {page : Page} (course : Course look options outcome) (rendered : Rendered look options page)
    (whole : page.markup.Whole)
    (writable : options.output = "" ∨ (look (Path.ofText options.output).text).writeFault? = none) :
    outcome.ending = .exit 0 := by
  obtain ⟨text, encodes⟩ := Text.whole_iff.mp whole
  cases course.of_rendered rendered with
  | shown | written => rfl
  | unshown _ _ faulty | broken _ _ _ faulty => exact (faulty.not_string encodes).elim
  | unwritable _ named refused =>
      rcases writable with unnamed | place
      · exact absurd unnamed named
      · cases refused.symm.trans place

/-- A run changes a file only when everything went well, and then only the one that it was told to write. A write
that breaks off is taken to leave its file as it was. -/
theorem written_on_success (within : ∀ path, (folder.find path).1.isSome → look path = folder.look path)
    (steady : ∀ path, broken folder path = folder) :
    let outcome := execute look edition arguments
    (outcome.ending ≠ .exit 0 ∨ OnlyTells edition arguments →
      outcome.written = none ∧ outcome.leaves broken folder = folder) ∧
    (outcome.ending = .exit 0 → ¬ OnlyTells edition arguments →
      ∃ (options : Options) (page : Page) (text : String), parse edition arguments = .ok options ∧
        Rendered look options page ∧ page.markup = text ∧ HandedOver broken folder options text outcome) ∧
    ∀ options, parse edition arguments = .ok options →
      (∀ page, Rendered look options page → page.markup.Whole →
        options.output = "" ∨ (look (Path.ofText options.output).text).writeFault? = none →
          outcome.ending = .exit 0) ∧
      ∀ settings authority copy, Prepared look options settings authority → options.copy ≠ "" →
        grammarFound look options.copy = .ok copy → (authority.compare copy settings.startSymbol).ok = false →
          outcome.ending = .exit 1 ∧
            (authority.compare copy settings.startSymbol).text.reported ∈ outcome.reported ∧
            outcome.printed = [] ∧ outcome.written = none := by
  intro outcome
  cases parsed : parse edition arguments with
  | error stop =>
      have unwritten : outcome.written = none := by
        simp only [outcome, execute, parsed]
        cases stop <;> rfl
      refine ⟨fun _ => ⟨unwritten, leaves_unwritten steady unwritten⟩, fun ended telling => ?_, fun _ other => ?_⟩
      · simp only [outcome, execute, parsed] at ended
        cases stop with
        | help => exact absurd (.inl parsed) telling
        | fault fault => cases ended
      · cases other
  | ok options =>
      have course : Course look options outcome := execute_course parsed
      have listing (asked : options.listProductions) : OnlyTells edition arguments := .inr ⟨options, parsed, asked⟩
      refine ⟨fun told => ?_, fun ended telling => ?_, fun other same => ?_⟩
      · have unwritten : outcome.written = none := by
          apply course.unwritten
          rcases told with failed | helps | ⟨other, same, asked⟩
          · exact .inl failed
          · cases parsed.symm.trans helps
          · cases parsed.symm.trans same
            exact .inr asked
        exact ⟨unwritten, leaves_unwritten steady unwritten⟩
      · obtain ⟨page, text, rendered, encodes, handed⟩ := course.handed_over within ended (telling ∘ listing)
        exact ⟨options, page, text, rfl, rendered, encodes, handed⟩
      · cases same
        refine ⟨fun page rendered => course.succeeds rendered, ?_⟩
        intro settings authority copy prepared copied found differs
        obtain ⟨told, same⟩ := course.of_mismatched prepared copied found differs
        rw [same]
        exact ⟨rfl, by simp, rfl, rfl⟩

/-- A grammar that was saved is found again. -/
theorem found_saved {name : Text} {grammar : Grammar} (whole : Whole grammar.texts)
    (saved : look (Path.ofText name).text = .file (Interchange.fileText grammar).toUTF8.data.toList) :
    grammarFound look name =
      .ok ⟨grammar.productions, some (grammar.name.getD (Path.ofText name).stem), grammar.seeded⟩ := by
  rw [grammarFound, saved, Interchange.file_loaded whole]
  rfl

/-- Two files in one folder. -/
def beside (first second : List UInt8) : Folder := ⟨[(["a"], first), (["b"], second)], []⟩

theorem look_beside (first second : List UInt8) :
    (beside first second).look "a" = .file first ∧ (beside first second).look "b" = .file second ∧
      (beside first second).find "o" = (some [("o" : Text)], .vacant) :=
  ⟨rfl, rfl, rfl⟩

/-- A grammar with one production, which refers to itself. -/
def lone (links : LinkTable) : Grammar :=
  ⟨[⟨some "A", some (.leaf .reference "A" .bare), none, false⟩], none, links⟩

def linkedLone : Grammar := lone (.insert .empty "A" ⟨some "#x", none⟩)

/-- The page takes the link from the copy, and goes into a file that is new. -/
theorem written_on_success_copied :
    let folder := beside (Interchange.fileText (lone .empty)).toUTF8.data.toList
      (Interchange.fileText linkedLone).toUTF8.data.toList
    let outcome := execute folder.look .latter ["a", "--copy", "b", "-o", "o"]
    let leaves := outcome.leaves fun folder _ => folder
    (∀ path, (folder.find path).1.isSome → folder.look path = folder.look path) ∧
      outcome.ending = .exit 0 ∧ ∃ (page : Page) (text : String), page.markup = text ∧
        outcome.written = some (("o" : Text), text) ∧ (leaves folder).look "o" = .file text.toUTF8.toList ∧
        (leaves folder).file? ["a"] = folder.file? ["a"] := by
  intro folder outcome leaves
  obtain ⟨first, second, third⟩ := look_beside (Interchange.fileText (lone .empty)).toUTF8.data.toList
    (Interchange.fileText linkedLone).toUTF8.data.toList
  have parsed : parse .latter ["a", "--copy", "b", "-o", "o"] = .ok ⟨"a", "b", "o", "", false, false⟩ := by decide
  have there : (Path.ofText "o").text = "o" := by decide
  have read := @found_saved folder.look "a" (lone .empty) (by decide) first
  have found := @found_saved folder.look "b" linkedLone (by decide) second
  have agrees (one two : LinkTable) : (Grammar.compare ⟨(lone one).productions, some "a", one⟩
      ⟨(lone two).productions, some "b", two⟩ "start").ok := rfl
  obtain ⟨-, handed, ways⟩ := @written_on_success folder.look .latter ["a", "--copy", "b", "-o", "o"] folder
    (fun folder _ => folder) (fun _ _ => rfl) fun _ => rfl
  have ended : outcome.ending = .exit 0 := by
    let final := Grammar.enrich ⟨(lone .empty).productions, some "a", (lone .empty).seeded⟩
      ⟨linkedLone.productions, some "b", linkedLone.seeded⟩
    have encodes : (final.page .default).toOption.all (decide ·.markup.Whole) = true := by decide +kernel
    obtain ⟨page, made⟩ := @Grammar.page_total final .default fun _ => rfl
    refine (ways _ parsed).1 page ⟨⟨rfl, read, rfl⟩, .enriched (by decide) found (agrees _ _), made⟩ ?_ (.inr ?_)
    · rw [made] at encodes
      exact of_decide_eq_true encodes
    · rw [there, Folder.look, third]
      rfl
  have writes : ¬ OnlyTells .latter ["a", "--copy", "b", "-o", "o"] := by
    rintro (helps | ⟨options, same, asked⟩)
    · cases parsed.symm.trans helps
    · cases parsed.symm.trans same
      cases asked
  obtain ⟨options, page, text, same, -, encodes, handed⟩ := handed ended writes
  cases parsed.symm.trans same
  obtain ⟨-, path, named, written, looked, kept⟩ := handed.saved (by decide)
  obtain rfl : path = "o" := named.trans there
  rw [third] at looked kept
  exact ⟨fun _ _ => rfl, ended, page, text, encodes, written, looked _ rfl, kept _ (by decide)⟩

end GrammarPage.Command
