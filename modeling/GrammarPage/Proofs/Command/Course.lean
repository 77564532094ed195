import GrammarPage.Command.Run
import GrammarPage.Proofs.Interchange.Refused
import GrammarPage.Proofs.Page.Resolved
import GrammarPage.Proofs.Settings.Lenient
import GrammarPage.Proofs.Text.Encoded

/-!
The course of a run. Once its options are known, a run reads the settings, the authority and the copy, compares,
makes the page and hands it over, and each of these stages may be its last. A run that fails has printed and
written nothing.
-/

namespace GrammarPage.Command

section Actions
variable {α β : Type} {action : Action α} {next : α → Action β} {told later : List String} {value : α}
  {outcome : Outcome}

/-- The action goes on with the value, and with these messages by then. -/
def Goes (action : Action α) (told : List String) (value : α) (later : List String) : Prop :=
  action.run.run told = (.ok value, later)

/-- The action ends the run. -/
def Ends (action : Action α) (told : List String) (outcome : Outcome) : Prop :=
  (action.run.run told).1 = .error outcome

theorem Goes.bind {final : List String} {result : β} (first : Goes action told value later)
    (second : Goes (next value) later result final) : Goes (action >>= next) told result final := by
  rw [Goes, run_bind, first]
  exact second

theorem Goes.ends (first : Goes action told value later) (second : Ends (next value) later outcome) :
    Ends (action >>= next) told outcome := by
  rw [Ends, run_bind, first]
  exact second

theorem Ends.bind (first : Ends action told outcome) : Ends (action >>= next) told outcome := by
  rw [Ends] at first ⊢
  rw [run_bind]
  split
  · rename_i same
    rw [same] at first
    cases first
  · rename_i same
    rw [same] at first
    cases first
    rfl

theorem goes_pure (value : α) (told : List String) : Goes (pure value : Action α) told value told := rfl

theorem goes_report (lines : List Text) (told : List String) :
    Goes (report lines) told () (told ++ lines.map Text.reported) := rfl

theorem ends_stop (ending : Ending) (printed told : List String) :
    Ends (stop ending printed : Action α) told ⟨ending, printed, told, none⟩ := rfl

theorem ends_fail (lines : List Text) (told : List String) :
    Ends (failWith lines : Action α) told ⟨.exit 1, [], told ++ lines.map Text.reported, none⟩ := rfl

theorem goes_log (options : Options) (source text : Text) (told : List String) :
    ∃ later, Goes (log options source text) told () later := by
  rw [log]
  split
  · exact ⟨_, goes_report _ told⟩
  · exact ⟨_, goes_pure () told⟩

/-- The run comes to this outcome, be it at its end or before. -/
def Comes (action : Action Outcome) (told : List String) (outcome : Outcome) : Prop :=
  Ends action told outcome ∨ ∃ later, Goes action told outcome later

theorem Goes.comes {next : α → Action Outcome} (first : Goes action told value later)
    (second : Comes (next value) later outcome) : Comes (action >>= next) told outcome :=
  second.imp first.ends fun ⟨final, second⟩ => ⟨final, first.bind second⟩

theorem Comes.outcome_eq {action : Action Outcome} (comes : Comes action [] outcome) :
    action.outcome = outcome := by
  rcases comes with ends | ⟨later, goes⟩
  · rw [Action.outcome, ends]
  · rw [Action.outcome, goes]

end Actions

section Stages
variable (look : Text → Look) (options : Options)

/-- A line that tells of an error. -/
def IsErrorLine (line : String) : Prop := "Error".toList <+: line.toList

theorem error_line_reported (first : String) (error : IsErrorLine first) (rest : Text) :
    IsErrorLine (first ++ rest : Text).reported := by
  rw [IsErrorLine, Text.reported_append, Text.reported_of_string, String.toList_append]
  exact error.trans (List.prefix_append _ _)

/-- A run that fails prints and writes nothing. It passes its fault on, if that is one to be passed on, or else
it reports an error. -/
inductive Fails : Option Escape → Outcome → Prop where
  | passed (fault : Escape) (told : List String) : Fails (some fault) ⟨.escaped fault, [], told, none⟩
  | reported (told : List String) {line : String} (error : IsErrorLine line) :
      Fails none ⟨.exit 1, [], told ++ [line], none⟩

/-- The settings that a run goes by. -/
def settingsFound : Except Settings.FileFault Settings :=
  if options.settings = "" then .ok .default else Settings.ofFile options.settings (look options.settings)

def settingsEscape : Settings.FileFault → Option Escape
  | .unreadable fault => some (.settings fault)
  | .cannotOpen _ _ | .notJson _ => none

/-- The grammar in the file of this name. -/
def grammarFound (name : Text) : Except Interchange.FileFault Grammar :=
  Interchange.grammarOfFile (Path.ofText name) (look (Path.ofText name).text)

def grammarEscape : Interchange.FileFault → Option Escape
  | .cannotOpen path .overlong => some (.grammarFile (.cannotOpen path .overlong))
  | .undecodable fault => some (.grammarFile (.undecodable fault))
  | .longNumeral error => some (.grammarFile (.longNumeral error))
  | .cannotOpen _ _ | .notJson _ _ | .invalid _ => none

variable {look options} {settings : Settings} {name : Text}

theorem settings_found_full (found : settingsFound look options = .ok settings) (style : Style) :
    (settings.palette style).isSome := by
  rw [settingsFound] at found
  split at found
  · cases found
    rfl
  · exact Settings.of_file_full found style

theorem read_settings_goes (found : settingsFound look options = .ok settings) (told : List String) :
    Goes (readSettings look options) told settings told := by
  rw [settingsFound] at found
  rw [readSettings]
  split at found
  · cases found
    rw [if_pos ‹_›]
    exact goes_pure _ told
  · rw [if_neg ‹_›, found]
    exact goes_pure _ told

theorem read_settings_ends {fault : Settings.FileFault} (refused : settingsFound look options = .error fault)
    (told : List String) :
    ∃ outcome, Ends (readSettings look options) told outcome ∧ Fails (settingsEscape fault) outcome := by
  have error : IsErrorLine
      ("Error reading settings " ++ options.settings ++ ": " ++ fault.message : Text).reported := by
    simp only [Text.append_assoc]
    exact error_line_reported "Error reading settings " ⟨_, rfl⟩ _
  rw [settingsFound] at refused
  rw [readSettings]
  split at refused
  · cases refused
  · rw [if_neg ‹_›, refused]
    cases fault with
    | unreadable fault => exact ⟨_, ends_stop _ _ told, .passed _ told⟩
    | cannotOpen path fault => exact ⟨_, ends_fail _ told, .reported told error⟩
    | notJson fault => exact ⟨_, ends_fail _ told, .reported told error⟩

variable (options) in
theorem read_grammar_goes {grammar : Grammar} (found : grammarFound look name = .ok grammar)
    (told : List String) : ∃ later, Goes (readGrammar look options name) told grammar later := by
  rw [readGrammar]
  rw [grammarFound] at found
  cases there : look (Path.ofText name).text with
  | file octets =>
      rw [there] at found
      simp only [found]
      obtain ⟨later, goes⟩ := goes_log options "loader" ("loaded " ++ toString grammar.productions.length
        ++ " productions from " ++ (Path.ofText name).text) told
      exact ⟨later, goes.bind (goes_pure grammar later)⟩
  | folder | vacant | unreachable | blocked | overlong | noPath =>
      rw [there] at found
      cases found

variable (options) in
theorem read_grammar_ends {fault : Interchange.FileFault} (refused : grammarFound look name = .error fault)
    (told : List String) :
    ∃ outcome, Ends (readGrammar look options name) told outcome ∧ Fails (grammarEscape fault) outcome := by
  have absent : IsErrorLine ("Error: file not found: " ++ (Path.ofText name).text : Text).reported :=
    error_line_reported "Error: file not found: " ⟨_, rfl⟩ _
  have error : IsErrorLine ("Error parsing " ++ (Path.ofText name).text ++ ": " ++ fault.message : Text).reported := by
    simp only [Text.append_assoc]
    exact error_line_reported "Error parsing " ⟨_, rfl⟩ _
  rw [grammarFound] at refused
  rw [readGrammar]
  cases there : look (Path.ofText name).text with
  | file octets =>
      rw [there] at refused
      simp only [refused]
      cases fault with
      | undecodable fault => exact ⟨_, ends_stop _ _ told, .passed _ told⟩
      | longNumeral fault => exact ⟨_, ends_stop _ _ told, .passed _ told⟩
      | notJson path fault => exact ⟨_, ends_fail _ told, .reported told error⟩
      | invalid fault => exact ⟨_, ends_fail _ told, .reported told error⟩
      | cannotOpen path fault => exact absurd refused Interchange.file_opened
  | folder =>
      rw [there] at refused
      cases refused
      exact ⟨_, ends_fail _ told, .reported told error⟩
  | overlong =>
      rw [there] at refused
      cases refused
      exact ⟨_, ends_stop _ _ told, .passed _ told⟩
  | vacant | unreachable | blocked | noPath =>
      rw [there] at refused
      cases refused
      exact ⟨_, ends_fail _ told, .reported told absent⟩

/-- What a run compares and shows: settings and authority are read, and no listing is asked for. -/
structure Prepared (look : Text → Look) (options : Options) (settings : Settings) (authority : Grammar) :
    Prop where
  settled : settingsFound look options = .ok settings
  read : grammarFound look options.authority = .ok authority
  unasked : options.listProductions = false

/-- The grammar that is shown: the authority, with the links of the copy if there is one and it agrees. -/
inductive Agreed (look : Text → Look) (options : Options) (settings : Settings) (authority : Grammar) :
    Grammar → Prop where
  | alone (uncopied : options.copy = "") : Agreed look options settings authority authority
  | enriched {copy : Grammar} (copied : options.copy ≠ "") (found : grammarFound look options.copy = .ok copy)
      (agrees : (authority.compare copy settings.startSymbol).ok) :
      Agreed look options settings authority (authority.enrich copy)

/-- The page that a run comes to. -/
inductive Rendered (look : Text → Look) (options : Options) (page : Page) : Prop where
  | intro {settings : Settings} {authority final : Grammar} (prepared : Prepared look options settings authority)
      (agreed : Agreed look options settings authority final) (made : final.page settings = .ok page)

/-- The ways of handing a page over. On the output and in a file stands its text, if that has an encoding. -/
inductive Delivered (look : Text → Look) (options : Options) (text : Text) : Outcome → Prop where
  | shown {string : String} (told : List String) (unnamed : options.output = "") (encodes : text = string) :
      Delivered look options text ⟨.exit 0, [string], told, none⟩
  | unshown {fault : EncodeFault} (told : List String) (unnamed : options.output = "")
      (faulty : text.Unencodable fault) :
      Delivered look options text ⟨.escaped (.cannotPrint fault), [], told, none⟩
  | unwritable {fault : OpenFault} (told : List String) (named : options.output ≠ "")
      (refused : (look (Path.ofText options.output).text).writeFault? = some fault) :
      Delivered look options text
        ⟨.escaped (.cannotWrite (Path.ofText options.output).text fault), [], told, none⟩
  | broken {fault : EncodeFault} (told : List String) (named : options.output ≠ "")
      (writable : (look (Path.ofText options.output).text).writeFault? = none)
      (faulty : text.Unencodable fault) :
      Delivered look options text
        ⟨.escaped (.brokenWrite (Path.ofText options.output).text fault), [], told, none⟩
  | written {string : String} (told : List String) (named : options.output ≠ "")
      (writable : (look (Path.ofText options.output).text).writeFault? = none) (encodes : text = string) :
      Delivered look options text ⟨.exit 0, [], told, some ((Path.ofText options.output).text, string)⟩

/-- The ways a run can go, by the stage that ends it. -/
inductive Course (look : Text → Look) (options : Options) : Outcome → Prop where
  | unsettled {fault : Settings.FileFault} {outcome : Outcome}
      (refused : settingsFound look options = .error fault) (fails : Fails (settingsEscape fault) outcome) :
      Course look options outcome
  | unread {settings : Settings} {fault : Interchange.FileFault} {outcome : Outcome}
      (settled : settingsFound look options = .ok settings)
      (refused : grammarFound look options.authority = .error fault)
      (fails : Fails (grammarEscape fault) outcome) : Course look options outcome
  | listed {settings : Settings} {authority : Grammar} (told : List String)
      (settled : settingsFound look options = .ok settings)
      (read : grammarFound look options.authority = .ok authority) (asked : options.listProductions) :
      Course look options ⟨listEnding (printable (listingLines authority)).2,
        (printable (listingLines authority)).1, told, none⟩
  | uncopied {settings : Settings} {authority : Grammar} {fault : Interchange.FileFault} {outcome : Outcome}
      (prepared : Prepared look options settings authority) (copied : options.copy ≠ "")
      (refused : grammarFound look options.copy = .error fault)
      (fails : Fails (grammarEscape fault) outcome) : Course look options outcome
  | mismatched {settings : Settings} {authority copy : Grammar} (told : List String)
      (prepared : Prepared look options settings authority) (copied : options.copy ≠ "")
      (found : grammarFound look options.copy = .ok copy)
      (differs : (authority.compare copy settings.startSymbol).ok = false) :
      Course look options ⟨.exit 1, [], told ++ [(authority.compare copy settings.startSymbol).text,
        "Error: grammar mismatch"].map Text.reported, none⟩
  | rendered {page : Page} {outcome : Outcome} (rendered : Rendered look options page)
      (delivered : Delivered look options page.markup outcome) : Course look options outcome

variable {authority : Grammar} {page : Page}

theorem deliver_delivered (look : Text → Look) (options : Options) (text : Text) (told : List String) :
    ∃ outcome, Comes (deliver look options text) told outcome ∧ Delivered look options text outcome := by
  rw [deliver]
  by_cases unnamed : options.output = ""
  · rw [if_pos unnamed]
    cases encoded : text.encoded with
    | ok string => exact ⟨_, .inr ⟨told, rfl⟩, .shown told unnamed (Text.encoded_ok_iff.mp encoded)⟩
    | error fault => exact ⟨_, .inl (ends_stop _ _ told), .unshown told unnamed (Text.encoded_error_iff.mp encoded)⟩
  · rw [if_neg unnamed]
    cases writable : (look (Path.ofText options.output).text).writeFault? with
    | some fault =>
        refine ⟨_, .inl ?_, .unwritable told unnamed writable⟩
        simp only [writable]
        exact ends_stop _ _ told
    | none =>
        simp only [writable]
        cases encoded : text.encoded with
        | error fault =>
            exact ⟨_, .inl (ends_stop _ _ told), .broken told unnamed writable (Text.encoded_error_iff.mp encoded)⟩
        | ok string =>
            have reports := goes_report ["Written: " ++ (Path.ofText options.output).text] told
            exact ⟨_, .inr ⟨_, reports.bind rfl⟩, .written _ unnamed writable (Text.encoded_ok_iff.mp encoded)⟩

theorem render_course {final : Grammar} (prepared : Prepared look options settings authority)
    (agreed : Agreed look options settings authority final) (told : List String) :
    ∃ outcome, Comes (pageText options settings final >>= deliver look options) told outcome ∧
      Course look options outcome := by
  obtain ⟨page, made⟩ := final.page_total (settings_found_full prepared.settled)
  obtain ⟨later, logs⟩ :=
    goes_log options "html" ("rendered " ++ toString page.lines.length ++ " lines") told
  have goes : Goes (pageText options settings final) told page.markup later := by
    rw [pageText, made]
    exact logs.bind (goes_pure _ later)
  obtain ⟨outcome, comes, delivered⟩ := deliver_delivered look options page.markup later
  exact ⟨outcome, goes.comes comes, .rendered ⟨prepared, agreed, made⟩ delivered⟩

theorem checked_course (prepared : Prepared look options settings authority) (told : List String) :
    ∃ outcome, Comes (do
        let grammar ← checked look options settings authority
        pageText options settings grammar >>= deliver look options) told outcome ∧
      Course look options outcome := by
  by_cases copied : options.copy = ""
  · have goes : Goes (checked look options settings authority) told authority told := by
      rw [checked, if_pos copied]
      exact goes_pure authority told
    obtain ⟨outcome, comes, course⟩ := render_course prepared (.alone copied) told
    exact ⟨outcome, goes.comes comes, course⟩
  cases found : grammarFound look options.copy with
  | error fault =>
      obtain ⟨outcome, ends, fails⟩ := read_grammar_ends options found told
      have ends : Ends (checked look options settings authority) told outcome := by
        rw [checked, if_neg copied]
        exact ends.bind
      exact ⟨outcome, .inl ends.bind, .uncopied prepared copied found fails⟩
  | ok copy =>
      obtain ⟨middle, reads⟩ := read_grammar_goes options found told
      obtain ⟨later, logs⟩ := goes_log options "compare" ("compared " ++ toString authority.defined.length
        ++ " authority / " ++ toString copy.defined.length ++ " copy productions: "
        ++ (authority.compare copy settings.startSymbol).summary) middle
      cases agrees : (authority.compare copy settings.startSymbol).ok with
      | true =>
          have goes : Goes (checked look options settings authority) told (authority.enrich copy) later := by
            rw [checked, if_neg copied]
            refine reads.bind (logs.bind ?_)
            rw [if_pos agrees]
            exact goes_pure _ later
          obtain ⟨outcome, comes, course⟩ := render_course prepared (.enriched copied found agrees) later
          exact ⟨outcome, goes.comes comes, course⟩
      | false =>
          refine ⟨_, .inl (Ends.bind ?_), .mismatched later prepared copied found agrees⟩
          rw [checked, if_neg copied]
          refine reads.ends (logs.ends ?_)
          rw [if_neg (by simp [agrees])]
          exact ends_fail _ later

theorem perform_course :
    ∃ outcome, Comes (perform look options) [] outcome ∧ Course look options outcome := by
  rw [perform]
  cases settled : settingsFound look options with
  | error fault =>
      obtain ⟨outcome, ends, fails⟩ := read_settings_ends settled []
      exact ⟨outcome, .inl ends.bind, .unsettled settled fails⟩
  | ok settings =>
      have settles := read_settings_goes settled []
      cases read : grammarFound look options.authority with
      | error fault =>
          obtain ⟨outcome, ends, fails⟩ := read_grammar_ends options read []
          exact ⟨outcome, settles.comes (.inl ends.bind), .unread settled read fails⟩
      | ok authority =>
          obtain ⟨told, reads⟩ := read_grammar_goes options read []
          by_cases asked : options.listProductions
          · refine ⟨_, settles.comes (reads.comes (.inl ?_)), .listed told settled read asked⟩
            rw [if_pos asked]
            exact ends_stop _ _ told
          have prepared : Prepared look options settings authority := ⟨settled, read, by simpa using asked⟩
          by_cases aloud : options.verbose
          · obtain ⟨outcome, comes, course⟩ := checked_course prepared _
            refine ⟨outcome, settles.comes (reads.comes ?_), course⟩
            rw [if_neg asked]
            simp only [if_pos aloud]
            exact (goes_report _ told).comes comes
          · obtain ⟨outcome, comes, course⟩ := checked_course prepared told
            refine ⟨outcome, settles.comes (reads.comes ?_), course⟩
            rw [if_neg asked]
            simp only [if_neg aloud]
            exact comes

/-- Every run with options takes one of these courses. -/
theorem outcome_course (look : Text → Look) (options : Options) :
    Course look options (perform look options).outcome := by
  obtain ⟨outcome, comes, course⟩ := @perform_course look options
  rwa [comes.outcome_eq]

theorem execute_course {edition : Edition} {arguments : List Text}
    (parsed : parse edition arguments = .ok options) : Course look options (execute look edition arguments) := by
  rw [execute, parsed]
  exact outcome_course look options

variable {outcome : Outcome}

theorem Fails.written {passed : Option Escape} (fails : Fails passed outcome) : outcome.written = none := by
  cases fails <;> rfl

theorem Fails.ending {passed : Option Escape} (fails : Fails passed outcome) : outcome.ending ≠ .exit 0 := by
  cases fails <;> simp

theorem Prepared.unique {other : Settings} {grammar : Grammar} (first : Prepared look options settings authority)
    (second : Prepared look options other grammar) : settings = other ∧ authority = grammar :=
  ⟨Except.ok.inj (first.settled.symm.trans second.settled), Except.ok.inj (first.read.symm.trans second.read)⟩

theorem Agreed.unique {final other : Grammar} (first : Agreed look options settings authority final)
    (second : Agreed look options settings authority other) : final = other := by
  cases first with
  | alone uncopied =>
      cases second with
      | alone => rfl
      | enriched copied => exact absurd uncopied copied
  | enriched copied found =>
      cases second with
      | alone uncopied => exact absurd uncopied copied
      | enriched _ again =>
          cases found.symm.trans again
          rfl

/-- A page shows that the copy, if there is one, was found and agrees. -/
theorem Rendered.agrees (rendered : Rendered look options page)
    (prepared : Prepared look options settings authority) (copied : options.copy ≠ "") :
    ∃ copy, grammarFound look options.copy = .ok copy ∧ (authority.compare copy settings.startSymbol).ok := by
  obtain ⟨again, agreed, -⟩ := rendered
  obtain ⟨rfl, rfl⟩ := again.unique prepared
  cases agreed with
  | alone uncopied => exact absurd uncopied copied
  | enriched _ found agrees => exact ⟨_, found, agrees⟩

/-- A run comes to one page. -/
theorem Rendered.unique {other : Page} (first : Rendered look options page) (second : Rendered look options other) :
    page = other := by
  obtain ⟨prepared, agreed, made⟩ := first
  obtain ⟨again, agreedAgain, madeAgain⟩ := second
  obtain ⟨rfl, rfl⟩ := prepared.unique again
  obtain rfl := agreed.unique agreedAgain
  exact Except.ok.inj (made.symm.trans madeAgain)

theorem Rendered.prepared (rendered : Rendered look options page) :
    ∃ settings authority, Prepared look options settings authority := by
  obtain ⟨prepared, -, -⟩ := rendered
  exact ⟨_, _, prepared⟩

namespace Course
variable (course : Course look options outcome)
include course

theorem of_unsettled {fault : Settings.FileFault} (refused : settingsFound look options = .error fault) :
    Fails (settingsEscape fault) outcome := by
  cases course with
  | unsettled again fails =>
      cases again.symm.trans refused
      exact fails
  | unread settled | listed _ settled => cases settled.symm.trans refused
  | uncopied prepared | mismatched _ prepared => cases prepared.settled.symm.trans refused
  | rendered rendered =>
      obtain ⟨_, _, prepared⟩ := rendered.prepared
      cases prepared.settled.symm.trans refused

theorem of_unread {fault : Interchange.FileFault} (settled : settingsFound look options = .ok settings)
    (refused : grammarFound look options.authority = .error fault) : Fails (grammarEscape fault) outcome := by
  cases course with
  | unsettled again => cases again.symm.trans settled
  | unread _ again fails =>
      cases again.symm.trans refused
      exact fails
  | listed _ _ read => cases read.symm.trans refused
  | uncopied prepared | mismatched _ prepared => cases prepared.read.symm.trans refused
  | rendered rendered =>
      obtain ⟨_, _, prepared⟩ := rendered.prepared
      cases prepared.read.symm.trans refused

variable (prepared : Prepared look options settings authority)
include prepared

theorem of_uncopied {fault : Interchange.FileFault} (copied : options.copy ≠ "")
    (refused : grammarFound look options.copy = .error fault) : Fails (grammarEscape fault) outcome := by
  cases course with
  | unsettled again => cases again.symm.trans prepared.settled
  | unread _ again => cases again.symm.trans prepared.read
  | listed _ _ _ asked => cases prepared.unasked.symm.trans asked
  | uncopied _ _ again fails =>
      cases again.symm.trans refused
      exact fails
  | mismatched _ _ _ found => cases found.symm.trans refused
  | rendered rendered =>
      obtain ⟨copy, found, -⟩ := rendered.agrees prepared copied
      cases found.symm.trans refused

/-- A copy that disagrees with the authority ends the run with a report. -/
theorem of_mismatched {copy : Grammar} (copied : options.copy ≠ "")
    (found : grammarFound look options.copy = .ok copy)
    (differs : (authority.compare copy settings.startSymbol).ok = false) :
    ∃ told, outcome = ⟨.exit 1, [], told ++ [(authority.compare copy settings.startSymbol).text,
      "Error: grammar mismatch"].map Text.reported, none⟩ := by
  cases course with
  | unsettled again => cases again.symm.trans prepared.settled
  | unread _ again => cases again.symm.trans prepared.read
  | listed _ _ _ asked => cases prepared.unasked.symm.trans asked
  | uncopied _ _ refused => cases refused.symm.trans found
  | mismatched told again _ other _ =>
      obtain ⟨rfl, rfl⟩ := again.unique prepared
      cases other.symm.trans found
      exact ⟨told, rfl⟩
  | rendered rendered =>
      obtain ⟨other, again, agrees⟩ := rendered.agrees prepared copied
      cases again.symm.trans found
      cases differs.symm.trans agrees

omit prepared in
theorem of_listed (settled : settingsFound look options = .ok settings)
    (read : grammarFound look options.authority = .ok authority) (asked : options.listProductions) :
    ∃ told, outcome = ⟨listEnding (printable (listingLines authority)).2,
      (printable (listingLines authority)).1, told, none⟩ := by
  cases course with
  | unsettled again => cases again.symm.trans settled
  | unread _ again => cases again.symm.trans read
  | listed told _ again _ =>
      cases again.symm.trans read
      exact ⟨told, rfl⟩
  | uncopied prepared | mismatched _ prepared => cases prepared.unasked.symm.trans asked
  | rendered rendered =>
      obtain ⟨_, _, prepared⟩ := rendered.prepared
      cases prepared.unasked.symm.trans asked

omit prepared in
/-- A run with a page hands it over. -/
theorem of_rendered (rendered : Rendered look options page) : Delivered look options page.markup outcome := by
  obtain ⟨settings, authority, prepared⟩ := rendered.prepared
  cases course with
  | unsettled again => cases again.symm.trans prepared.settled
  | unread _ again => cases again.symm.trans prepared.read
  | listed _ _ _ asked => cases prepared.unasked.symm.trans asked
  | uncopied _ copied refused =>
      obtain ⟨copy, found, -⟩ := rendered.agrees prepared copied
      cases found.symm.trans refused
  | mismatched _ again copied found differs =>
      obtain ⟨copy, other, agrees⟩ := rendered.agrees again copied
      cases other.symm.trans found
      cases differs.symm.trans agrees
  | rendered again delivered => exact again.unique rendered ▸ delivered

end Course

end Stages

end GrammarPage.Command
