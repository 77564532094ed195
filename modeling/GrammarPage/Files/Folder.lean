import GrammarPage.Files.Look
import GrammarPage.Files.Path

/-!
A folder of files held in memory. Files and folders are kept by the names on the way to them. A folder
is there if it was made, or if something lies in it.
-/

namespace GrammarPage

structure Folder where
  files : List (List Text × List UInt8)
  made : List (List Text)
  deriving DecidableEq, Repr

namespace Folder

def file? (folder : Folder) (place : List Text) : Option (List UInt8) :=
  (folder.files.find? (·.1 = place)).map (·.2)

def holds (folder : Folder) (place : List Text) : Bool :=
  place = [] || folder.made.any (fun other => other.take place.length = place)
    || folder.files.any (fun file => file.1.dropLast.take place.length = place)

/-- A step that leads nowhere else. -/
def isIdle (step : Text) : Bool := step = "" || step = "."

/-- A look from a folder outside, in which only the way further out is known. -/
def outside : List Text → Look
  | [] => .folder
  | step :: rest =>
      if isIdle step || step = ".." then outside rest
      else if Look.isLongName step then .overlong
      else if rest = [] then .vacant else .unreachable

/-- A look from a place in the folder, step by step, and the place it ends at if it stays inside. -/
def follow (folder : Folder) (place : List Text) : List Text → Option (List Text) × Look
  | [] => (some place, .folder)
  | step :: rest =>
      if isIdle step then folder.follow place rest
      else if step = ".." then
        if place = [] then (none, outside rest) else folder.follow place.dropLast rest
      else if Look.isLongName step then (none, .overlong)
      else
        let next := place ++ [step]
        match folder.file? next with
        | some octets => (some next, if rest = [] then .file octets else .blocked)
        | none =>
            if folder.holds next then folder.follow next rest
            else (some next, if rest = [] then .vacant else .unreachable)

/-- A look at a path as it is written, and the place it leads to if that lies in the folder. -/
def find (folder : Folder) (path : Text) : Option (List Text) × Look :=
  match Look.ofPath? path with
  | some look => (none, look)
  | none =>
      if path.toList.head? = some (.char '/') then (none, outside (Path.steps path))
      else folder.follow [] (Path.steps path)

def look (folder : Folder) (path : Text) : Look := (folder.find path).2

def put (place : List Text) (octets : List UInt8) :
    List (List Text × List UInt8) → List (List Text × List UInt8)
  | [] => [(place, octets)]
  | (other, old) :: rest =>
      if other = place then (other, octets) :: rest else (other, old) :: put place octets rest

/-- Writes a file; one that lies outside leaves the folder as it is. -/
def write (folder : Folder) (path : Text) (octets : List UInt8) : Folder :=
  match (folder.find path).1 with
  | some place => { folder with files := put place octets folder.files }
  | none => folder

/-- The files that are new or differ from what they were. -/
def changed (before after : Folder) : List (List Text × List UInt8) :=
  after.files.filter fun file => before.file? file.1 ≠ some file.2

end Folder

end GrammarPage
