import GrammarPage.Display.Emission
import GrammarPage.Grammar.Enrichment
import GrammarPage.Grammar.Warnings
import GrammarPage.Interchange.Reader
import GrammarPage.Interchange.Writer

/-!
Sessions. A session holds grammars and emitters under names. Grammars change in place: an emitter that
was made for a grammar sees its links as they are when it emits, whatever name the grammar goes by at
the time; the names it takes for defined are those of the moment it was made. An emitter also keeps the
names that its last page anchored, or as much of that page as it came to.
-/

namespace GrammarPage

structure HeldEmitter where
  emitter : Emitter
  grammar : Option Nat
  anchored : List Text

/-- What comes of a page, and what the emitter keeps of it. -/
def HeldEmitter.emit (held : HeldEmitter) (links : LinkTable) (lines : List (List (Run Mark)))
    (title : Option Text) : Except Mark Page × HeldEmitter :=
  let (result, anchored) := (held.emitter.emit links lines title).run.run held.anchored
  (result, { held with anchored })

/-- Grammars are held by number, in the order in which they came, and found by name. -/
structure Session where
  grammars : List Grammar
  names : List (Text × Nat)
  emitters : List (Text × HeldEmitter)

namespace Session

inductive Lines where
  | given (lines : List (List (Run Mark)))
  | ofGrammar (name : Text)

/-- What changes a session. -/
inductive Change where
  | load (name : Text) (document : Json)
  | setLink (grammar name : Text) (link : Link)
  | setName (grammar : Text) (name : Option Text)
  | setProductions (grammar source : Text)
  | enrich (authority copy : Text)
  | reload (name grammar : Text)
  | makeEmitter (name : Text) (grammar : Option Text) (settings : Settings)

/-- What is asked of a session. -/
inductive Question where
  | links (grammar : Text)
  | linkFor (grammar name : Text)
  | compare (authority copy start : Text)
  | warnings (grammar start : Text)
  | document (grammar : Text)
  | items (grammar : Text)
  | page (grammar : Text) (settings : Settings)
  | emit (emitter : Text) (lines : Lines) (title : Option Text)

inductive Step where
  | change (change : Change)
  | ask (question : Question)

inductive Answer where
  | done
  | loaded (count : Nat) (links : LinkTable)
  | links (links : LinkTable)
  | link (link : Option Link)
  | name (name : Option Text)
  | names (names : List Text)
  | enriched (links copyLinks : LinkTable)
  | report (report : Report)
  | warnings (warnings : List Warning)
  | document (document : Json)
  | reloaded (sameProductions sameLinks : Bool) (links : LinkTable)
  | items (items : List Item)
  | page (page : Page)

inductive Fault where
  | unknownName (name : Text)
  | load (error : Interchange.LoadError)
  | style (mark : Mark)

def Fault.message : Fault → Text
  | .unknownName name => shownText name
  | .load error => error.message
  | .style mark => unknownStyleMessage mark

def start : Session := ⟨[], [], []⟩

def number? (session : Session) (name : Text) : Option Nat :=
  (session.names.find? (·.1 = name)).map (·.2)

/-- A grammar by its name, with its number. -/
def find (session : Session) (name : Text) : Except Fault (Nat × Grammar) :=
  match session.number? name with
  | none => .error (.unknownName name)
  | some number => match session.grammars[number]? with
    | none => .error (.unknownName name)
    | some grammar => .ok (number, grammar)

def findEmitter (session : Session) (name : Text) : Except Fault HeldEmitter :=
  match session.emitters.find? (·.1 = name) with
  | none => .error (.unknownName name)
  | some (_, held) => .ok held

/-- Binds a name to a grammar that is new to the session. -/
def bind (session : Session) (name : Text) (grammar : Grammar) : Session :=
  { session with
    grammars := session.grammars ++ [grammar]
    names := (name, session.grammars.length) :: session.names }

def update (session : Session) (number : Nat) (grammar : Grammar) : Session :=
  { session with grammars := session.grammars.set number grammar }

def linksOf (session : Session) (number : Option Nat) : LinkTable :=
  ((number.bind (session.grammars[·]?)).map (·.links)).getD .empty

def linesFor (session : Session) : Lines → Except Fault (List (List (Run Mark)))
  | .given lines => .ok lines
  | .ofGrammar name => do
      let (_, grammar) ← session.find name
      return grammar.lines.map marked

def answer (session : Session) : Question → Except Fault Answer
  | .links grammar => do
      let (_, held) ← session.find grammar
      return .links held.links
  | .linkFor grammar name => do
      let (_, held) ← session.find grammar
      return .link (held.linkFor? name)
  | .compare authority copy start => do
      let (_, left) ← session.find authority
      let (_, right) ← session.find copy
      return .report (left.compare right start)
  | .warnings grammar start => do
      let (_, held) ← session.find grammar
      return .warnings (held.warnings start)
  | .document grammar => do
      let (_, held) ← session.find grammar
      return .document held.document
  | .items grammar => do
      let (_, held) ← session.find grammar
      return .items held.items
  | .page grammar settings => do
      let (_, held) ← session.find grammar
      return .page (← (held.page settings).mapError .style)
  | .emit emitter lines title => do
      let held ← session.findEmitter emitter
      let lines ← session.linesFor lines
      return .page (← (held.emit (session.linksOf held.grammar) lines title).1.mapError .style)

/-- What a question leaves behind. An emitter keeps something of each page, and of each that it fails to make. -/
def asked (session : Session) : Question → Session
  | .emit emitter lines title => match session.findEmitter emitter, session.linesFor lines with
      | .ok held, .ok lines =>
          let kept := (held.emit (session.linksOf held.grammar) lines title).2
          { session with emitters := (emitter, kept) :: session.emitters }
      | _, _ => session
  | _ => session

/-- A change that fails leaves no changed session behind. -/
def change (session : Session) : Change → Except Fault (Session × Answer)
  | .load name document => do
      let grammar ← (Interchange.readGrammar document).mapError .load
      return (session.bind name grammar, .loaded grammar.productions.length grammar.links)
  | .setLink grammar name link => do
      let (number, held) ← session.find grammar
      let links := held.links.insert name link
      return (session.update number { held with links := links }, .links links)
  | .setName grammar name => do
      let (number, held) ← session.find grammar
      return (session.update number { held with name := name }, .name name)
  | .setProductions grammar source => do
      let (number, held) ← session.find grammar
      let (_, other) ← session.find source
      let changed := { held with productions := other.productions }
      return (session.update number changed, .names changed.names)
  | .enrich authority copy => do
      let (number, left) ← session.find authority
      let (other, right) ← session.find copy
      let enriched := left.enrich right
      let session := session.update number enriched
      return (session, .enriched enriched.links (session.linksOf (some other)))
  | .reload name grammar => do
      let (_, held) ← session.find grammar
      let reloaded ← (Interchange.readGrammar held.document).mapError .load
      return (session.bind name reloaded,
        .reloaded (reloaded.productions = held.productions) (reloaded.links.agrees held.links)
          reloaded.links)
  | .makeEmitter name grammar settings => do
      let found ← grammar.mapM session.find
      let held := ⟨.ofGrammar settings (found.map (·.2)), found.map (·.1), []⟩
      return ({ session with emitters := (name, held) :: session.emitters }, .done)

def step (session : Session) : Step → Except Fault (Session × Answer)
  | .change change => session.change change
  | .ask question => do return (session.asked question, ← session.answer question)

/-- The session behind a step. A change that fails leaves it as it was. -/
def behind (session : Session) : Step → Session
  | .change change => match session.change change with
      | .ok (changed, _) => changed
      | .error _ => session
  | .ask question => session.asked question

/-- All steps in order, with an answer or a fault for each. -/
def run (session : Session) : List Step → List (Except Fault Answer)
  | [] => []
  | next :: rest => (·.2) <$> session.step next :: (session.behind next).run rest

end Session

end GrammarPage
