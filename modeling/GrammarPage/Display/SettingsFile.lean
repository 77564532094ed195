import GrammarPage.Display.Settings
import GrammarPage.Files.Look
import GrammarPage.Json.Reader

/-!
Settings files. Octets that are no UTF-8 are passed over, but the text has to be JSON.
-/

namespace GrammarPage.Settings

inductive FileFault where
  | cannotOpen (path : Text) (fault : OpenFault)
  | notJson (error : Json.ReadError)
  | unreadable (fault : Fault)

def FileFault.message : FileFault → Text
  | .cannotOpen path fault => fault.message path
  | .notJson error => error.message
  | .unreadable fault => fault.message

def ofFile (path : Text) (look : Look) : Except FileFault Settings := do
  let octets ← look.octets.mapError (.cannotOpen path)
  let document ← (Json.read (lenientText octets)).mapError .notJson
  (ofDocument document).mapError .unreadable

end GrammarPage.Settings
