import GrammarPage.Display.Foreign
import GrammarPage.Display.Line
import GrammarPage.Display.Settings
import GrammarPage.Text.Entity

/-!
The page that shows lines of styled runs. Each run becomes one or more elements: the first definition
of a name is the element with that name as its id, and every further word that is a defined name refers
to it. Elements come before markup, so what links where can be said without looking into the text.
-/

namespace GrammarPage

def marked (line : Line) : List (Run Mark) := line.map fun run => ⟨run.text, .style run.mark⟩

inductive Role where
  | plain
  | anchor (name : Text)
  | outward (name target title : Text)
  | reference (name : Text)
  deriving DecidableEq, Repr

structure Element where
  role : Role
  swatch : Swatch
  text : Text
  deriving DecidableEq, Repr

namespace Element

def attr (name value : Text) : Text := " " ++ name ++ "=\"" ++ value ++ "\""

def textAttr (name value : Text) : Text := attr name (escapeMarkup value)

def enclosed (tag attributes text : Text) : Text :=
  "<" ++ tag ++ attributes ++ ">" ++ escapeMarkup text ++ "</" ++ tag ++ ">"

def markup (element : Element) : Text :=
  let css := element.swatch.css
  match element.role with
  | .plain => enclosed "span" (attr "style" css) element.text
  | .anchor name =>
      enclosed "span" (textAttr "id" name ++ attr "style" css) element.text
  | .outward name target title =>
      enclosed "a" (textAttr "id" name ++ textAttr "href" target
        ++ textAttr "title" title ++ attr "style" css) element.text
  | .reference name =>
      enclosed "a" (textAttr "href" ("#" ++ name)
        ++ attr "style" (css ++ ";text-decoration:none")) element.text

end Element

structure Page where
  title : Text
  lines : List (List Element)
  deriving DecidableEq, Repr

namespace Page

def head (title : Text) : List Text :=
  ["<!DOCTYPE html>", "<html>", "<head>", "<meta charset=\"utf-8\">",
    "<title>" ++ escapeMarkup title ++ "</title>", "</head>", "<body>",
    "<pre style=\"font-family:Consolas,monospace\">"]

def foot : List Text := ["</pre>", "</body>", "</html>", ""]

def lineMarkup (line : List Element) : Text := Text.join (line.map (·.markup))

def markup (page : Page) : Text :=
  Text.intercalate "\n" (head page.title ++ page.lines.map lineMarkup ++ foot)

end Page

/-- What makes pages: settings, and the names that were defined when it was made. -/
structure Emitter where
  settings : Settings
  defined : List Text

namespace Emitter

def ofGrammar (settings : Settings) (grammar : Option Grammar) : Emitter :=
  ⟨settings, (grammar.map (·.defined)).getD []⟩

def swatch? (emitter : Emitter) : Mark → Option (Style × Swatch)
  | .style style => (emitter.settings.palette style).map (style, ·)
  | .other _ => none

/-- The title of a link out of the page is the link's own, or else the name defined. -/
def anchorRole (links : LinkTable) (name : Text) : Role :=
  match links.get? name with
  | none => .anchor name
  | some link => match filled link.target with
    | none => .anchor name
    | some target => .outward name target ((filled link.title).getD name)

def plainElements (swatch : Swatch) (text : Text) : List Element :=
  if text = "" then [] else [⟨.plain, swatch, text⟩]

/-- The elements of a row of words, given the plain text that is still to be shown before them. -/
def wordElements (defined : List Text) (swatch : Swatch) (before : Text) :
    List Text → List Element
  | [] => plainElements swatch before
  | word :: rest =>
      if defined.contains (trimmed word) then
        plainElements swatch before ++ ⟨.reference (trimmed word), swatch, word⟩
          :: wordElements defined swatch "" rest
      else wordElements defined swatch (before ++ word) rest

def wordsOf (text : Text) : List Text := (Text.words text.toList).map Text.ofList

/-- The elements of a run, and the names that have an element of their own afterwards. -/
def runElements (emitter : Emitter) (links : LinkTable) (anchored : List Text) (opens : Bool)
    (run : Run Mark) : Except Mark (List Element × List Text) :=
  match emitter.swatch? run.mark with
  | none => .error run.mark
  | some (style, swatch) =>
      let name := trimmed run.text
      if style ≠ .production || emitter.defined.isEmpty then
        .ok ([⟨.plain, swatch, run.text⟩], anchored)
      else if opens && emitter.defined.contains name && !anchored.contains name then
        .ok ([⟨anchorRole links name, swatch, run.text⟩], name :: anchored)
      else .ok (wordElements emitter.defined swatch "" (wordsOf run.text), anchored)

def rowElements (emitter : Emitter) (links : LinkTable) (anchored : List Text) :
    List (Run Mark) → Except Mark (List Element × List Text)
  | [] => .ok ([], anchored)
  | run :: rest => do
      let (elements, anchored) ← emitter.runElements links anchored false run
      let (more, anchored) ← emitter.rowElements links anchored rest
      return (elements ++ more, anchored)

/-- The first run of a line opens a definition if the second begins with a colon. -/
def opensDefinition : List (Run Mark) → Bool
  | _ :: second :: _ => (Text.trimStart second.text.toList).head? = some (.char ':')
  | _ => false

def lineElements (emitter : Emitter) (links : LinkTable) (anchored : List Text)
    (line : List (Run Mark)) : Except Mark (List Element × List Text) :=
  match line with
  | [] => .ok ([], anchored)
  | run :: rest => do
      let (elements, anchored) ← emitter.runElements links anchored (opensDefinition line) run
      let (more, anchored) ← emitter.rowElements links anchored rest
      return (elements ++ more, anchored)

def pageLines (emitter : Emitter) (links : LinkTable) (anchored : List Text) :
    List (List (Run Mark)) → Except Mark (List (List Element))
  | [] => .ok []
  | line :: rest => do
      let (elements, anchored) ← emitter.lineElements links anchored line
      let more ← emitter.pageLines links anchored rest
      return elements :: more

def chosenTitle (emitter : Emitter) (title : Option Text) : Text :=
  (filled title <|> filled emitter.settings.title).getD "Grammar"

/-- The page, or the first mark that the palette has no colour for. -/
def page (emitter : Emitter) (links : LinkTable) (lines : List (List (Run Mark)))
    (title : Option Text) : Except Mark Page := do
  return ⟨emitter.chosenTitle title, ← emitter.pageLines links [] lines⟩

end Emitter

namespace Grammar

def lines (grammar : Grammar) : List Line := linesOf grammar.items

/-- The page of a whole grammar; its title is the settings' own or else the grammar's name. -/
def page (grammar : Grammar) (settings : Settings) : Except Mark Page :=
  (Emitter.ofGrammar settings (some grammar)).page grammar.links (grammar.lines.map marked)
    (filled settings.title <|> grammar.name)

end Grammar

/-- The page of lines that belong to no grammar. -/
def linesPage (lines : List Line) (settings : Settings) (title : Option Text) :
    Except Mark Page :=
  (Emitter.ofGrammar settings none).page .empty (lines.map marked) title

end GrammarPage
