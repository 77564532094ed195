import GrammarPage.Command.Run

/-!
The command itself: it looks at the paths a run may look at, and then prints and writes what the run
comes to.
-/

namespace GrammarPage.Command

/-- Whether a folder stands at the path, if anything does. -/
def isFolder? (path : String) : IO (Option Bool) := do
  try
    let place ← IO.FS.realPath path
    return some (← place.isDir)
  catch _ => return none

def lookAround (path parent : String) (name : Text) : IO Look := do
  match ← isFolder? path with
  | some true => return .folder
  | some false => return .file (← IO.FS.readBinFile path).toList
  | none => match ← isFolder? parent with
    | some true => return if Look.isLongName name then .overlong else .vacant
    | some false => return .blocked
    | none => return .unreachable

/-- Paths come from arguments here, which are strings; others lead nowhere. -/
def lookAt (path : Text) : IO Look :=
  match Look.ofPath? path with
  | some look => return look
  | none => match path.encoded, (Path.ofText path).parent.text.encoded with
    | .ok place, .ok parent => lookAround place parent (Path.ofText path).name
    | _, _ => return .unreachable

def writeTo (path : Text) (text : String) : IO Unit := do
  if let .ok place := path.encoded then IO.FS.writeFile place text

/-- Prints and writes an outcome, and gives the code to exit with. A write that breaks off leaves the file
empty. -/
def deliverOutcome (outcome : Outcome) : IO UInt32 := do
  if let some (path, text) := outcome.written then writeTo path text
  IO.print (textOfLines outcome.printed)
  IO.eprint (textOfLines outcome.reported)
  match outcome.ending with
  | .exit code => return code.toUInt32
  | .escaped fault => do
      if let .brokenWrite path _ := fault then writeTo path ""
      IO.eprintln fault.message.reported
      return 1

end GrammarPage.Command

def main (arguments : List String) : IO UInt32 := do
  let arguments := arguments.map GrammarPage.Text.ofString
  let paths := GrammarPage.Command.pathsOf .latter arguments
  let looks ← paths.mapM GrammarPage.Command.lookAt
  GrammarPage.Command.deliverOutcome
    (GrammarPage.Command.execute
      (fun path => ((paths.zip looks).lookup path).getD .unreachable) .latter arguments)
