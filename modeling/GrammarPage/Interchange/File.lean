import GrammarPage.Files.Look
import GrammarPage.Files.Path
import GrammarPage.Interchange.Reader
import GrammarPage.Interchange.Writer
import GrammarPage.Json.Reader
import GrammarPage.Json.Writer

/-!
Grammar files. A file is strict UTF-8 and holds one interchange document; a grammar without a name of
its own takes the stem of the file's name.
-/

namespace GrammarPage.Interchange

inductive FileFault where
  | cannotOpen (path : Text) (fault : OpenFault)
  | undecodable (fault : Text.Utf8.Fault)
  | longNumeral (error : Json.ReadError)
  | notJson (path : Text) (error : Json.ReadError)
  | invalid (error : LoadError)

def FileFault.message : FileFault → Text
  | .cannotOpen path fault => fault.message path
  | .undecodable fault => fault.message
  | .longNumeral error => error.message
  | .notJson path error => path ++ ": invalid JSON (" ++ error.message ++ ")"
  | .invalid error => error.message

def jsonFault (path : Text) (error : Json.ReadError) : FileFault :=
  match error.fault with
  | .longNumeral _ => .longNumeral error
  | _ => .notJson path error

def nameAfter (path : Path) (grammar : Grammar) : Grammar :=
  { grammar with name := some (grammar.name.getD path.stem) }

def grammarOfOctets (path : Path) (octets : List UInt8) : Except FileFault Grammar := do
  let text ← (strictText octets).mapError .undecodable
  let document ← (Json.read text).mapError (jsonFault path.text)
  let grammar ← (readGrammar document).mapError .invalid
  return nameAfter path grammar

def grammarOfFile (path : Path) (look : Look) : Except FileFault Grammar := do
  let octets ← look.octets.mapError (.cannotOpen path.text)
  grammarOfOctets path octets

/-- The text of the file that holds a grammar. -/
def fileText (grammar : Grammar) : String := String.ofList (Json.fileText grammar.document)

end GrammarPage.Interchange
