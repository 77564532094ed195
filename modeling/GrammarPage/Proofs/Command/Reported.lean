import GrammarPage.Files.Folder
import GrammarPage.Proofs.Command.Course

/-!
How runs end. Most runs end in order, with a complaint about usage, or with a line that tells of an error. The ones
that end otherwise are named here, one by one: they pass on what they find in the place of a grammar, an infinite
colour component in the settings, a place for the page where no file can be written, or a listing or a page that has
no encoding.
-/

namespace GrammarPage.Command

variable {look : Text → Look} {options : Options} {outcome : Outcome} {name : Text}

/-- A run that ends in order or tells what is wrong. -/
inductive Tells : Outcome → Prop where
  | ended {outcome : Outcome} (ended : outcome.ending = .exit 0) : Tells outcome
  | misused {outcome : Outcome} {fault : UsageFault} (ended : outcome.ending = .exit 2)
      (told : outcome.reported = (usageError fault).map Text.reported) : Tells outcome
  | failed {outcome : Outcome} {line : String} (ended : outcome.ending = .exit 1)
      (told : line ∈ outcome.reported) (error : IsErrorLine line) : Tells outcome

theorem Tells.unescaped {fault : Escape} (tells : Tells outcome) : outcome.ending ≠ .escaped fault := by
  intro escaped
  cases tells with
  | ended ended | misused ended | failed ended => cases ended.symm.trans escaped

/-- What a grammar's place can hold that is not reported: a name or a path that is too long, octets that are no text,
or a whole number of too many digits. -/
inductive Unreported (look : Text → Look) (name : Text) : Interchange.FileFault → Prop where
  | overlong (long : look (Path.ofText name).text = .overlong) :
      Unreported look name (.cannotOpen (Path.ofText name).text .overlong)
  | undecodable {octets : List UInt8} {fault : Text.Utf8.Fault}
      (there : look (Path.ofText name).text = .file octets) (faulty : strictText octets = .error fault) :
      Unreported look name (.undecodable fault)
  | longNumeral {octets : List UInt8} {text : List Char} {error : Json.ReadError} {digits : Nat}
      (there : look (Path.ofText name).text = .file octets) (decoded : strictText octets = .ok text)
      (faulty : Json.read text = .error error) (long : error.fault = .longNumeral digits) :
      Unreported look name (.longNumeral error)

/-- Lines of which one has no encoding, with the fault of the first such line. -/
inductive Unprintable : List Text → EncodeFault → Prop where
  | here {line : Text} {fault : EncodeFault} (rest : List Text) (faulty : line.Unencodable fault) :
      Unprintable (line :: rest) fault
  | later {line : Text} {string : String} {rest : List Text} {fault : EncodeFault} (encodes : line = string)
      (unprintable : Unprintable rest fault) : Unprintable (line :: rest) fault

/-- The faults that a run passes on, in the order in which it meets them. -/
inductive Escapes (look : Text → Look) (options : Options) : Escape → Prop where
  | settings {octets : List UInt8} {document : Json} (named : options.settings ≠ "")
      (there : look options.settings = .file octets) (parsed : Json.read (lenientText octets) = .ok document)
      (overflows : Settings.Overflowing document) : Escapes look options (.settings .infiniteComponent)
  | authority {settings : Settings} {fault : Interchange.FileFault}
      (settled : settingsFound look options = .ok settings) (unreported : Unreported look options.authority fault) :
      Escapes look options (.grammarFile fault)
  | listing {settings : Settings} {authority : Grammar} {fault : EncodeFault}
      (settled : settingsFound look options = .ok settings)
      (read : grammarFound look options.authority = .ok authority) (asked : options.listProductions)
      (unprintable : Unprintable (listingLines authority) fault) : Escapes look options (.cannotPrint fault)
  | copy {settings : Settings} {authority : Grammar} {fault : Interchange.FileFault}
      (prepared : Prepared look options settings authority) (copied : options.copy ≠ "")
      (unreported : Unreported look options.copy fault) : Escapes look options (.grammarFile fault)
  | shown {page : Page} {fault : EncodeFault} (rendered : Rendered look options page) (unnamed : options.output = "")
      (faulty : page.markup.Unencodable fault) : Escapes look options (.cannotPrint fault)
  | output {page : Page} {fault : OpenFault} (rendered : Rendered look options page) (named : options.output ≠ "")
      (refused : (look (Path.ofText options.output).text).writeFault? = some fault) :
      Escapes look options (.cannotWrite (Path.ofText options.output).text fault)
  | broken {page : Page} {fault : EncodeFault} (rendered : Rendered look options page) (named : options.output ≠ "")
      (writable : (look (Path.ofText options.output).text).writeFault? = none)
      (faulty : page.markup.Unencodable fault) :
      Escapes look options (.brokenWrite (Path.ofText options.output).text fault)

theorem printable_fault_iff {lines : List Text} {fault : EncodeFault} :
    (printable lines).2 = some fault ↔ Unprintable lines fault := by
  induction lines with
  | nil => exact ⟨nofun, nofun⟩
  | cons line rest ih =>
      rcases line.string_or_unencodable with ⟨string, encodes⟩ | ⟨first, faulty⟩
      · rw [printable, Text.encoded_ok_iff.mpr encodes]
        refine ⟨fun found => .later encodes (ih.mp found), fun unprintable => ih.mpr ?_⟩
        cases unprintable with
        | here rest faulty => exact (faulty.not_string encodes).elim
        | later _ unprintable => exact unprintable
      · rw [printable, faulty.encoded]
        refine ⟨fun found => ?_, fun unprintable => ?_⟩
        · cases found
          exact .here rest faulty
        · cases unprintable with
          | here rest again => exact congrArg some (faulty.unique again)
          | later encodes => exact (faulty.not_string encodes).elim

theorem unreported_iff {escape : Escape} :
    (∃ fault, grammarFound look name = .error fault ∧ grammarEscape fault = some escape) ↔
      ∃ fault, escape = .grammarFile fault ∧ Unreported look name fault := by
  constructor
  · rintro ⟨fault, refused, passed⟩
    rw [grammarFound, Interchange.refused_iff] at refused
    generalize there : look (Path.ofText name).text = found at refused
    cases refused with
    | cannotOpen closed =>
        cases found <;> cases closed <;> cases passed
        exact ⟨_, rfl, .overlong there⟩
    | undecodable faulty =>
        cases passed
        exact ⟨_, rfl, .undecodable there faulty⟩
    | @unread _ _ error decoded faulty =>
        rw [Interchange.jsonFault] at passed
        split at passed
        · cases passed
          exact ⟨_, rfl, .longNumeral there decoded faulty ‹_›⟩
        · cases passed
    | invalid => cases passed
  · rintro ⟨fault, rfl, unreported⟩
    refine ⟨fault, ?_, ?_⟩
    · rw [grammarFound, Interchange.refused_iff]
      cases unreported with
      | overlong long =>
          rw [long]
          exact .cannotOpen rfl
      | undecodable there faulty =>
          rw [there]
          exact .undecodable faulty
      | @longNumeral _ _ error _ there decoded faulty long =>
          have same : Interchange.jsonFault (Path.ofText name).text error = .longNumeral error := by
            rw [Interchange.jsonFault, long]
          rw [there, ← same]
          exact .unread decoded faulty
    · cases unreported <;> rfl

/-- Settings escape where a colour overflows. -/
theorem settings_escape_iff {escape : Escape} :
    (∃ fault, settingsFound look options = .error fault ∧ settingsEscape fault = some escape) ↔
      escape = .settings .infiniteComponent ∧ options.settings ≠ "" ∧ ∃ octets document,
        look options.settings = .file octets ∧ Json.read (lenientText octets) = .ok document ∧
          Settings.Overflowing document := by
  rw [settingsFound]
  split
  · rename_i unnamed
    simp [unnamed]
  · rename_i named
    rw [← @Settings.of_file_unreadable_iff options.settings _ .infiniteComponent]
    constructor
    · rintro ⟨fault, refused, passed⟩
      cases fault with
      | unreadable fault =>
          cases fault
          cases passed
          exact ⟨rfl, named, refused⟩
      | cannotOpen | notJson => cases passed
    · rintro ⟨rfl, -, refused⟩
      exact ⟨_, refused, rfl⟩

theorem Fails.escaped {fault : Escape} (fails : Fails (some fault) outcome) : outcome.ending = .escaped fault := by
  cases fails
  rfl

/-- A failure is told of, or else it is passed on, and then its fault has whatever holds of faults passed on. -/
theorem Fails.tells_or {passed : Option Escape} (fails : Fails passed outcome) {property : Escape → Prop}
    (meets : ∀ fault, passed = some fault → property fault) :
    Tells outcome ∨ ∃ fault, outcome.ending = .escaped fault ∧ property fault := by
  cases fails with
  | passed fault told => exact .inr ⟨fault, rfl, meets fault rfl⟩
  | reported told error => exact .inl (.failed rfl (by simp) error)

/-- A page that is handed over leaves the run in order, or a fault in its place or in its text escapes. -/
theorem Delivered.tells_or_escapes {page : Page} (rendered : Rendered look options page)
    (delivered : Delivered look options page.markup outcome) :
    Tells outcome ∨ ∃ fault, outcome.ending = .escaped fault ∧ Escapes look options fault := by
  cases delivered with
  | shown | written => exact .inl (.ended rfl)
  | unshown told unnamed faulty => exact .inr ⟨_, rfl, .shown rendered unnamed faulty⟩
  | unwritable told named refused => exact .inr ⟨_, rfl, .output rendered named refused⟩
  | broken told named writable faulty => exact .inr ⟨_, rfl, .broken rendered named writable faulty⟩

section Deliveries
variable {text : Text} (delivered : Delivered look options text outcome)
include delivered

theorem Delivered.of_unshown {fault : EncodeFault} (unnamed : options.output = "")
    (faulty : text.Unencodable fault) : outcome.ending = .escaped (.cannotPrint fault) := by
  cases delivered with
  | shown _ _ encodes => exact (faulty.not_string encodes).elim
  | unshown _ _ again => rw [faulty.unique again]
  | unwritable _ named | broken _ named | written _ named => exact absurd unnamed named

variable (named : options.output ≠ "")
include named

theorem Delivered.of_unwritable {fault : OpenFault}
    (refused : (look (Path.ofText options.output).text).writeFault? = some fault) :
    outcome.ending = .escaped (.cannotWrite (Path.ofText options.output).text fault) := by
  cases delivered with
  | shown _ unnamed | unshown _ unnamed => exact absurd unnamed named
  | unwritable _ _ again =>
      cases again.symm.trans refused
      rfl
  | broken _ _ writable | written _ _ writable => cases writable.symm.trans refused

theorem Delivered.of_broken {fault : EncodeFault}
    (writable : (look (Path.ofText options.output).text).writeFault? = none) (faulty : text.Unencodable fault) :
    outcome.ending = .escaped (.brokenWrite (Path.ofText options.output).text fault) := by
  cases delivered with
  | shown _ unnamed | unshown _ unnamed => exact absurd unnamed named
  | unwritable _ _ refused => cases refused.symm.trans writable
  | broken _ _ _ again => rw [faulty.unique again]
  | written _ _ _ encodes => exact (faulty.not_string encodes).elim

end Deliveries

/-- A course ends in order or with an error that is told, unless it meets a fault that escapes. -/
theorem Course.tells_or_escapes (course : Course look options outcome) :
    Tells outcome ∨ ∃ fault, outcome.ending = .escaped fault ∧ Escapes look options fault := by
  cases course with
  | unsettled refused fails =>
      refine fails.tells_or fun fault passed => ?_
      obtain ⟨rfl, named, octets, document, there, parsed, overflows⟩ :=
        settings_escape_iff.mp ⟨_, refused, passed⟩
      exact .settings named there parsed overflows
  | unread settled refused fails =>
      refine fails.tells_or fun fault passed => ?_
      obtain ⟨cause, rfl, unreported⟩ := unreported_iff.mp ⟨_, refused, passed⟩
      exact .authority settled unreported
  | uncopied prepared copied refused fails =>
      refine fails.tells_or fun fault passed => ?_
      obtain ⟨cause, rfl, unreported⟩ := unreported_iff.mp ⟨_, refused, passed⟩
      exact .copy prepared copied unreported
  | @listed settings authority told settled read asked =>
      cases found : (printable (listingLines authority)).2 with
      | none => exact .inl (.ended rfl)
      | some fault => exact .inr ⟨.cannotPrint fault, rfl, .listing settled read asked (printable_fault_iff.mp found)⟩
  | mismatched told =>
      refine .inl (.failed rfl (List.mem_append_right _ (List.mem_cons_of_mem _ List.mem_cons_self)) ?_)
      rw [Text.reported_of_string]
      exact ⟨_, rfl⟩
  | rendered rendered delivered => exact delivered.tells_or_escapes rendered

/-- A fault that escapes is the one that the run ends with. -/
theorem Course.escapes {fault : Escape} (course : Course look options outcome)
    (escapes : Escapes look options fault) : outcome.ending = .escaped fault := by
  cases escapes with
  | settings named there parsed overflows =>
      obtain ⟨cause, refused, passed⟩ :=
        settings_escape_iff.mpr ⟨rfl, named, _, _, there, parsed, overflows⟩
      exact (passed ▸ course.of_unsettled refused).escaped
  | authority settled unreported =>
      obtain ⟨cause, refused, passed⟩ := unreported_iff.mpr ⟨_, rfl, unreported⟩
      exact (passed ▸ course.of_unread settled refused).escaped
  | copy prepared copied unreported =>
      obtain ⟨cause, refused, passed⟩ := unreported_iff.mpr ⟨_, rfl, unreported⟩
      exact (passed ▸ course.of_uncopied prepared copied refused).escaped
  | listing settled read asked unprintable =>
      obtain ⟨told, rfl⟩ := course.of_listed settled read asked
      simp only [printable_fault_iff.mpr unprintable, listEnding]
  | shown rendered unnamed faulty => exact (course.of_rendered rendered).of_unshown unnamed faulty
  | output rendered named refused => exact (course.of_rendered rendered).of_unwritable named refused
  | broken rendered named writable faulty => exact (course.of_rendered rendered).of_broken named writable faulty

/-- Every run ends in order, or with what is wrong told, or else with the fault that escapes it; nothing but these
faults escapes, and each of them does. -/
theorem told_or_escaped (look : Text → Look) (edition : Edition) (arguments : List Text) :
    let outcome := execute look edition arguments
    (Tells outcome ∨ ∃ fault, outcome.ending = .escaped fault) ∧
      ∀ fault, outcome.ending = .escaped fault ↔
        ∃ options, parse edition arguments = .ok options ∧ Escapes look options fault := by
  intro outcome
  cases parsed : parse edition arguments with
  | error stop =>
      cases stop with
      | help =>
          have ended : outcome.ending = .exit 0 := by simp only [outcome, execute, parsed]
          exact ⟨.inl (.ended ended), fun fault => by simp [ended]⟩
      | fault fault =>
          have ended : outcome = ⟨.exit 2, [], (usageError fault).map Text.reported, none⟩ := by
            simp only [outcome, execute, parsed]
          rw [ended]
          exact ⟨.inl (.misused rfl rfl), fun fault => by simp⟩
  | ok options =>
      have course : Course look options outcome := execute_course parsed
      refine ⟨?_, fun fault => ⟨fun escaped => ?_, ?_⟩⟩
      · rcases course.tells_or_escapes with tells | ⟨fault, escaped, -⟩
        · exact .inl tells
        · exact .inr ⟨fault, escaped⟩
      · rcases course.tells_or_escapes with tells | ⟨other, same, escapes⟩
        · exact absurd escaped tells.unescaped
        · cases same.symm.trans escaped
          exact ⟨options, rfl, escapes⟩
      · rintro ⟨other, same, escapes⟩
        cases same
        exact course.escapes escapes

/-- An octet that begins no character, alone in the file of the authority, is not told of. -/
theorem undecodable_untold :
    let folder : Folder := ⟨[(["a"], [0xFF])], []⟩
    ∀ edition, ¬ Tells (execute folder.look edition ["a"]) := by
  intro folder edition tells
  have parsed : parse edition ["a"] = .ok ⟨"a", "", "", "", false, false⟩ := by cases edition <;> decide
  have there : folder.look (Path.ofText "a").text = .file [0xFF] := rfl
  have faulty : strictText [0xFF] = .error ⟨0, [0xFF], .startOctet⟩ := rfl
  have course := @execute_course folder.look _ _ _ parsed
  exact tells.unescaped (course.escapes (.authority rfl (.undecodable there faulty)))

end GrammarPage.Command
