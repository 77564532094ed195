import GrammarPage.Command.Usage
import GrammarPage.Display.Page
import GrammarPage.Display.SettingsFile
import GrammarPage.Grammar.Enrichment
import GrammarPage.Grammar.Warnings
import GrammarPage.Interchange.File

/-!
A run of the command, as a function of its arguments and of what it finds at the paths it looks at. A
run prints, and may have one file to write; the file is written only when everything before it went
well. What is printed or written has to be encoded first, what is reported does not. Most faults are
reported and end the run with a code; a few are passed on to the caller.
-/

namespace GrammarPage.Command

/-- A fault that a run passes on instead of reporting it. A write breaks off when the file is open and its
text turns out to have no encoding; what that leaves of the file is not up to the run. -/
inductive Escape where
  | grammarFile (fault : Interchange.FileFault)
  | settings (fault : Settings.Fault)
  | style (mark : Mark)
  | cannotWrite (path : Text) (fault : OpenFault)
  | cannotPrint (fault : EncodeFault)
  | brokenWrite (path : Text) (fault : EncodeFault)

def Escape.message : Escape → Text
  | .grammarFile fault => fault.message
  | .settings fault => fault.message
  | .style mark => unknownStyleMessage mark
  | .cannotWrite path fault => fault.message path
  | .cannotPrint fault | .brokenWrite _ fault => fault.message

inductive Ending where
  | exit (code : Nat)
  | escaped (fault : Escape)

structure Outcome where
  ending : Ending
  printed : List String
  reported : List String
  written : Option (Text × String)

/-- The messages so far, and what the run goes on with or how it ends. -/
abbrev Action (α : Type) := ExceptT Outcome (StateM (List String)) α

variable {α : Type}

def report (lines : List Text) : Action Unit := modify (· ++ lines.map Text.reported)

def stop (ending : Ending) (printed : List String) : Action α := do
  throw ⟨ending, printed, ← get, none⟩

def failWith (lines : List Text) : Action α := do
  report lines
  stop (.exit 1) []

def logLine (source : Text) (text : Text) : Text :=
  "INFO " ++ program ++ "." ++ source ++ ": " ++ text

def log (options : Options) (source : Text) (text : Text) : Action Unit :=
  if options.verbose then report [logLine source text] else pure ()

variable (look : Text → Look)

def readSettings (options : Options) : Action Settings :=
  if options.settings = "" then pure .default
  else match Settings.ofFile options.settings (look options.settings) with
    | .ok settings => pure settings
    | .error (.unreadable fault) => stop (.escaped (.settings fault)) []
    | .error fault =>
        failWith ["Error reading settings " ++ options.settings ++ ": " ++ fault.message]

def loaded (options : Options) (path : Path) (grammar : Grammar) : Action Grammar := do
  log options "loader"
    ("loaded " ++ toString grammar.productions.length ++ " productions from " ++ path.text)
  return grammar

def readGrammar (options : Options) (name : Text) : Action Grammar :=
  let path := Path.ofText name
  let found := look path.text
  if found = .overlong then stop (.escaped (.grammarFile (.cannotOpen path.text .overlong))) []
  else if !found.isThere then failWith ["Error: file not found: " ++ path.text]
  else match Interchange.grammarOfFile path found with
    | .ok grammar => loaded options path grammar
    | .error (.undecodable fault) => stop (.escaped (.grammarFile (.undecodable fault))) []
    | .error (.longNumeral error) => stop (.escaped (.grammarFile (.longNumeral error))) []
    | .error fault => failWith ["Error parsing " ++ path.text ++ ": " ++ fault.message]

/-- The lines that list one production. -/
def listing (grammar : Grammar) (production : Production) : List Text :=
  match production.body, production.name with
  | none, _ => match filled production.comment with
    | some comment => ["  // " ++ comment]
    | none => []
  | some body, none => ["  <unnamed>: " ++ body.canonical ++ ";"]
  | some _, some name =>
      ("  " ++ production.canonical) :: match grammar.linkFor? name with
        | some link =>
            ["    -> " ++ link.target.getD "None" ++ " (" ++ link.title.getD "None" ++ ")"]
        | none => []

def listingLines (grammar : Grammar) : List Text :=
  ((filled grammar.name).getD "grammar" ++ ": " ++ toString grammar.productions.length
      ++ " production(s)")
    :: grammar.productions.flatMap (listing grammar)

/-- Lines as they are printed, one after another, up to the first that cannot be. -/
def printable : List Text → List String × Option EncodeFault
  | [] => ([], none)
  | line :: rest => match line.encoded with
    | .error fault => ([], some fault)
    | .ok text => (text :: (printable rest).1, (printable rest).2)

def listEnding : Option EncodeFault → Ending
  | none => .exit 0
  | some fault => .escaped (.cannotPrint fault)

def list (grammar : Grammar) : Action Outcome :=
  let lines := printable (listingLines grammar)
  stop (listEnding lines.2) lines.1

/-- The authority, enriched from the copy if one is given and agrees with it. -/
def checked (options : Options) (settings : Settings) (authority : Grammar) : Action Grammar :=
  if options.copy = "" then pure authority
  else do
    let copy ← readGrammar look options options.copy
    let found := authority.compare copy settings.startSymbol
    log options "compare"
      ("compared " ++ toString authority.defined.length ++ " authority / "
        ++ toString copy.defined.length ++ " copy productions: " ++ found.summary)
    if found.ok then return authority.enrich copy
    else failWith [found.text, "Error: grammar mismatch"]

def pageText (options : Options) (settings : Settings) (grammar : Grammar) : Action Text :=
  match grammar.page settings with
  | .ok page => do
      log options "html" ("rendered " ++ toString page.lines.length ++ " lines")
      return page.markup
  | .error mark => stop (.escaped (.style mark)) []

def deliver (options : Options) (page : Text) : Action Outcome :=
  if options.output = "" then match page.encoded with
    | .error fault => stop (.escaped (.cannotPrint fault)) []
    | .ok text => do return ⟨.exit 0, [text], ← get, none⟩
  else
    let path := (Path.ofText options.output).text
    match (look path).writeFault? with
    | some fault => stop (.escaped (.cannotWrite path fault)) []
    | none => match page.encoded with
      | .error fault => stop (.escaped (.brokenWrite path fault)) []
      | .ok text => do
          report ["Written: " ++ path]
          return ⟨.exit 0, [], ← get, some (path, text)⟩

def perform (options : Options) : Action Outcome := do
  let settings ← readSettings look options
  let authority ← readGrammar look options options.authority
  if options.listProductions then list authority
  else
    if options.verbose then
      report ((authority.warnings settings.startSymbol).map fun warning =>
        "warning: " ++ warning.text)
    let grammar ← checked look options settings authority
    let page ← pageText options settings grammar
    deliver look options page

/-- The outcome of a run, however it ended. -/
def Action.outcome (action : Action Outcome) : Outcome :=
  match (action.run.run []).1 with
  | .ok outcome | .error outcome => outcome

def execute (edition : Edition) (arguments : List Text) : Outcome :=
  match parse edition arguments with
  | .error .help => ⟨.exit 0, help, [], none⟩
  | .error (.fault fault) => ⟨.exit 2, [], (usageError fault).map Text.reported, none⟩
  | .ok options => (perform look options).outcome

/-- The paths at which a run with these arguments may look. -/
def pathsOf (edition : Edition) (arguments : List Text) : List Text :=
  match parse edition arguments with
  | .ok options =>
      [options.settings, (Path.ofText options.authority).text, (Path.ofText options.copy).text,
        (Path.ofText options.output).text]
  | .error _ => []

end GrammarPage.Command
