import GrammarPage.Text.After
import GrammarPage.Text.Digit
import GrammarPage.Text.Shown

/-!
Command-line arguments. Words are told apart first, all of them, up to a bare "--" after which nothing
is an option any more. They are then taken in order; an option takes the next word as its value only if
that word is no option, and the help acts as soon as it is reached. What may be attached to an option is
told differently by two editions of these rules.
-/

namespace GrammarPage.Command

inductive Switch where
  | help
  | copy
  | output
  | settings
  | listProductions
  | verbose
  deriving DecidableEq, Repr

namespace Switch

def takesValue : Switch → Bool
  | .copy | .output | .settings => true
  | .help | .listProductions | .verbose => false

/-- How messages name a switch. -/
def title : Switch → Text
  | .help => "-h/--help"
  | .copy => "--copy"
  | .output => "-o/--output"
  | .settings => "--settings"
  | .listProductions => "--list-productions"
  | .verbose => "--verbose"

end Switch

def spellings : List (Text × Switch) :=
  [("-h", .help), ("--help", .help), ("--copy", .copy), ("-o", .output), ("--output", .output),
    ("--settings", .settings), ("--list-productions", .listProductions), ("--verbose", .verbose)]

def spelled? (word : Text) : Option Switch := (spellings.find? (·.1 = word)).map (·.2)

inductive UsageFault where
  | ambiguous (word : Text) (matching : List Text)
  | missingValue (switch : Switch)
  | ignoredValue (switch : Switch) (value : Text)
  | missingAuthority
  | unrecognized (words : List Text)
  deriving DecidableEq, Repr

def UsageFault.message : UsageFault → Text
  | .ambiguous word matching =>
      "ambiguous option: " ++ word ++ " could match " ++ Text.intercalate ", " matching
  | .missingValue switch => "argument " ++ switch.title ++ ": expected one argument"
  | .ignoredValue switch value =>
      "argument " ++ switch.title ++ ": ignored explicit argument " ++ shownText value
  | .missingAuthority => "the following arguments are required: authority"
  | .unrecognized words => "unrecognized arguments: " ++ Text.intercalate " " words

/-- The edition of the rules that a run goes by. -/
inductive Edition where
  | former
  | latter
  deriving DecidableEq, Repr

/-- How a value is attached to an option: not at all, behind the equals sign of a long option, or behind
the letter of a short one, with an equals sign in between or without. -/
inductive Attached where
  | bare
  | equals (value : Text)
  | tail (assigned : Bool) (value : List CodePoint)
  deriving DecidableEq, Repr

inductive Word where
  | positional (text : Text)
  | separator
  | option (switch : Switch) (attached : Attached)
  | unknown (text : Text)
  deriving DecidableEq, Repr

/-- The parts of a word around its first equals sign. -/
def splitEquals? (word : List CodePoint) : Option (Text × Text) :=
  if word.contains '=' then
    some (Text.ofList (word.takeWhile (· ≠ .char '=')), Text.ofList ((word.dropWhile (· ≠ .char '=')).drop 1))
  else none

def isDecimal (c : CodePoint) : Bool := (Text.digitValue? c).isSome

/-- Words such as -1 and -.5; a line feed may end them. -/
def isNegativeNumber (word : List CodePoint) : Bool :=
  match word with
  | '-' :: rest =>
      let body := if rest.getLast? = some (.char '\n') then rest.dropLast else rest
      match body.dropWhile isDecimal with
      | [] => body ≠ []
      | '.' :: fraction => fraction ≠ [] && fraction.all isDecimal
      | _ => false
  | _ => false

def unmatched (text : Text) : Word :=
  if isNegativeNumber text.toList || text.toList.contains ' ' then .positional text
  else .unknown text

/-- A word with two leading dashes may cut the option short, as long as one option fits. -/
def longWord (text : Text) : Except UsageFault Word :=
  let split := splitEquals? text.toList
  let name := (split.map (·.1)).getD text
  match spellings.filter fun spelling => (Text.after? name.toList spelling.1.toList).isSome with
  | [] => .ok (unmatched text)
  | [(_, switch)] =>
      .ok (.option switch (split.elim .bare fun parts => .equals parts.2))
  | several => .error (.ambiguous text (several.map (·.1)))

def shortWord (text : Text) : Word :=
  match spelled? (Text.ofList (text.toList.take 2)) with
  | some switch => .option switch (.tail false (text.toList.drop 2))
  | none => unmatched text

def isLong (text : Text) : Bool := text.toList.take 2 = [.char '-', .char '-']

/-- An option spelled out in front of an equals sign. -/
def equalsWord? (text : Text) : Option Word := do
  let (name, value) ← splitEquals? text.toList
  let switch ← spelled? name
  return .option switch (if isLong name then .equals value else .tail true value.toList)

def classify (text : Text) : Except UsageFault Word :=
  if text.toList.head? ≠ some (.char '-') then .ok (.positional text)
  else match spelled? text with
    | some switch => .ok (.option switch .bare)
    | none =>
        if text = "-" then .ok (.positional text)
        else match equalsWord? text with
          | some word => .ok word
          | none => if isLong text then longWord text else .ok (shortWord text)

def classifyAll : List Text → Except UsageFault (List Word)
  | [] => .ok []
  | text :: rest =>
      if text = "--" then .ok (.separator :: rest.map .positional)
      else do
        let word ← classify text
        let words ← classifyAll rest
        return word :: words

structure Options where
  authority : Text
  copy : Text
  output : Text
  settings : Text
  listProductions : Bool
  verbose : Bool
  deriving DecidableEq, Repr

/-- What the words taken so far come to. An option may still await its value, and the authority may
have been the very last word. -/
structure Taken where
  authority : Option Text
  options : Options
  extras : List Text
  awaiting : Option Switch
  justNamed : Bool
  deriving DecidableEq, Repr

namespace Taken

def start : Taken := ⟨none, ⟨"", "", "", "", false, false⟩, [], none, false⟩

def withOptions (taken : Taken) (change : Options → Options) : Taken :=
  { taken with options := change taken.options, awaiting := none, justNamed := false }

def setValue (taken : Taken) (value : Text) : Switch → Taken
  | .copy => taken.withOptions fun options => { options with copy := value }
  | .output => taken.withOptions fun options => { options with output := value }
  | .settings => taken.withOptions fun options => { options with settings := value }
  | .help | .listProductions | .verbose => taken.withOptions id

def setFlag (taken : Taken) : Switch → Taken
  | .listProductions => taken.withOptions fun options => { options with listProductions := true }
  | .verbose => taken.withOptions fun options => { options with verbose := true }
  | .help | .copy | .output | .settings => taken.withOptions id

def await (taken : Taken) (switch : Switch) : Taken :=
  { taken with awaiting := some switch, justNamed := false }

def addExtra (taken : Taken) (text : Text) : Taken :=
  { taken with extras := taken.extras ++ [text], justNamed := false }

/-- A word that is no option: a value that is awaited, else the authority, else one too many. -/
def addPositional (taken : Taken) (text : Text) : Taken :=
  match taken.awaiting, taken.authority with
  | some switch, _ => taken.setValue text switch
  | none, none => { taken with authority := some text, justNamed := true }
  | none, some _ => taken.addExtra text

/-- A separator right before or right after the authority belongs to it. -/
def addSeparator (taken : Taken) : Taken :=
  if taken.authority.isNone || taken.justNamed then { taken with justNamed := false }
  else taken.addExtra "--"

end Taken

/-- Why taking words ends early. -/
inductive Stop where
  | help
  | fault (fault : UsageFault)
  deriving DecidableEq, Repr

/-- The letters behind a short help option are short options again. An output option ends them with its
value, which may still have to follow. If none of the letters is at fault, the help acts. -/
def helpTail (valueFollows : Bool) : List CodePoint → Stop
  | ['h'] => .help
  | 'h' :: rest => helpTail valueFollows rest
  | ['o'] => if valueFollows then .help else .fault (.missingValue .output)
  | 'o' :: _ => .help
  | letters => .fault (.ignoredValue .help (Text.ofList letters))

/-- In the latter edition the help takes no value behind an equals sign and no dash behind its letter. A
letter that is no option ends the letters, and the help acts all the same. -/
def strictHelpTail (valueFollows : Bool) : List CodePoint → Stop
  | ['h'] => .help
  | 'h' :: '=' :: value => .fault (.ignoredValue .help (Text.ofList value))
  | 'h' :: rest => strictHelpTail valueFollows rest
  | ['o'] => if valueFollows then .help else .fault (.missingValue .output)
  | '-' :: rest => .fault (.ignoredValue .help (Text.ofList ('-' :: rest)))
  | _ => .help

def Edition.helpTail : Edition → Bool → Bool → List CodePoint → Stop
  | .former, valueFollows, _, letters => Command.helpTail valueFollows letters
  | .latter, _, true, value => .fault (.ignoredValue .help (Text.ofList value))
  | .latter, valueFollows, false, letters => strictHelpTail valueFollows letters

def flagStop (edition : Edition) (valueFollows : Bool) (switch : Switch) (attached : Attached) : Option Stop :=
  match attached with
  | .bare => if switch = .help then some .help else none
  | .equals value => some (.fault (.ignoredValue switch value))
  | .tail assigned letters => some (edition.helpTail valueFollows assigned letters)

/-- In the former edition two dashes alone are no value, even where they are attached to an option. -/
def Edition.attachedValue (edition : Edition) (value : Text) : Text :=
  if edition = .former && value = "--" then "" else value

/-- Takes one word, given whether a word that is no option follows. -/
def step (edition : Edition) (valueFollows : Bool) (taken : Taken) : Word → Except Stop Taken
  | .positional text => .ok (taken.addPositional text)
  | .separator => .ok taken.addSeparator
  | .unknown text => .ok (taken.addExtra text)
  | .option switch attached =>
      if switch.takesValue then match attached with
        | .equals value => .ok (taken.setValue (edition.attachedValue value) switch)
        | .tail _ value => .ok (taken.setValue (edition.attachedValue (Text.ofList value)) switch)
        | .bare =>
            if valueFollows then .ok (taken.await switch) else .error (.fault (.missingValue switch))
      else match flagStop edition valueFollows switch attached with
        | some stop => .error stop
        | none => .ok (taken.setFlag switch)

def valueNext : List Word → Bool
  | .positional _ :: _ => true
  | _ => false

def take (edition : Edition) (taken : Taken) : List Word → Except Stop Taken
  | [] => .ok taken
  | word :: rest => do
      let taken ← step edition (valueNext rest) taken word
      take edition taken rest

def finish (taken : Taken) : Except Stop Options :=
  match taken.authority, taken.extras with
  | none, _ => .error (.fault .missingAuthority)
  | some authority, [] => .ok { taken.options with authority := authority }
  | some _, extras => .error (.fault (.unrecognized extras))

def parse (edition : Edition) (arguments : List Text) : Except Stop Options := do
  let words ← (classifyAll arguments).mapError .fault
  let taken ← take edition .start words
  finish taken

end GrammarPage.Command
