import GrammarPage.Text.Encoded
import GrammarPage.Text.LineEnd
import GrammarPage.Text.Shown
import GrammarPage.Text.Utf8

/-!
What a look at a path finds, and what opening a file there comes to.
-/

namespace GrammarPage

/-- An overlong path holds more octets than a path or a name in it may have; one with a null character, or
with a half of a pair that stands for no octet, is no path at all. -/
inductive Look where
  | file (octets : List UInt8)
  | folder
  | vacant
  | unreachable
  | blocked
  | overlong
  | noPath
  deriving DecidableEq, Repr

inductive OpenFault where
  | missing
  | folder
  | blocked
  | overlong
  | noPath
  deriving DecidableEq, Repr

/-- Half of a pair that stands for an octet in the name of a file, where the name is no UTF-8. -/
def CodePoint.isOctet : CodePoint → Bool
  | .char _ => false
  | .half offset => 0x480 ≤ offset.val && offset.val < 0x500

def CodePoint.isNameless (c : CodePoint) : Bool := c.isHalf && !c.isOctet

def CodePoint.octetCount : CodePoint → Nat
  | .char c => c.utf8Size
  | .half _ => 1

def noPathMessage (path : Text) : Text :=
  if path.toList.any CodePoint.isNameless then (Text.faultAt CodePoint.isNameless path.toList).message
  else "embedded null byte"

def OpenFault.message (path : Text) : OpenFault → Text
  | .missing => "[Errno 2] No such file or directory: " ++ shownText path
  | .folder => "[Errno 21] Is a directory: " ++ shownText path
  | .blocked => "[Errno 20] Not a directory: " ++ shownText path
  | .overlong => "[Errno 36] File name too long: " ++ shownText path
  | .noPath => noPathMessage path

namespace Look

/-- The most octets that one name in a path may have. -/
def nameLimit : Nat := 255

/-- The most octets that a path may have. -/
def pathLimit : Nat := 4095

/-- The number of octets in the name of a file. -/
def octetCount (name : Text) : Nat := name.toList.foldl (fun count c => count + c.octetCount) 0

def isLongName (name : Text) : Bool := nameLimit < octetCount name

/-- What a path comes to without a look at any folder, if that is settled. -/
def ofPath? (path : Text) : Option Look :=
  if path.toList.contains '\x00' || path.toList.any CodePoint.isNameless then some .noPath
  else if pathLimit < octetCount path then some .overlong
  else if path = "" then some .unreachable
  else none

/-- Whether something stands at the path at all. -/
def isThere : Look → Bool
  | .file _ | .folder => true
  | _ => false

def octets : Look → Except OpenFault (List UInt8)
  | .file octets => .ok octets
  | .folder => .error .folder
  | .vacant | .unreachable => .error .missing
  | .blocked => .error .blocked
  | .overlong => .error .overlong
  | .noPath => .error .noPath

theorem octets_ok_iff {look : Look} {found : List UInt8} : look.octets = .ok found ↔ look = .file found := by
  cases look <;> simp [octets]

/-- Why no file can be written at the path. A vacant path is one whose folder is there. -/
def writeFault? : Look → Option OpenFault
  | .file _ | .vacant => none
  | .folder => some .folder
  | .unreachable => some .missing
  | .blocked => some .blocked
  | .overlong => some .overlong
  | .noPath => some .noPath

end Look

/-- The text of a file that has to be UTF-8 throughout. -/
def strictText (octets : List UInt8) : Except Text.Utf8.Fault (List Char) :=
  (Text.Utf8.decode octets).map Text.unifyLineEnds

/-- The text of a file in which faulty octets are passed over. -/
def lenientText (octets : List UInt8) : List Char :=
  Text.unifyLineEnds (Text.Utf8.decodeLenient octets)

end GrammarPage
