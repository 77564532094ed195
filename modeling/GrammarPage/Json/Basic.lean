import GrammarPage.Number.Binary64
import GrammarPage.Text.Basic

/-!
JSON values. Whole numbers and floating-point numbers stay apart, and an object keeps its members in
the order in which they were written. A repeated name keeps its first place and its last value.
-/

namespace GrammarPage

inductive Json where
  | null
  | bool (value : Bool)
  | int (value : Int)
  | real (value : Binary64)
  | str (value : Text)
  | list (items : List Json)
  | object (members : List (Text × Json))
  deriving Repr, Inhabited

namespace Json

def member? (name : Text) : List (Text × Json) → Option Json
  | [] => none
  | (key, value) :: rest => if key = name then some value else member? name rest

def get? (name : Text) : Json → Option Json
  | .object members => member? name members
  | _ => none

/-- A missing member reads as null. -/
def get (document : Json) (name : Text) : Json := (document.get? name).getD .null

def putMember (name : Text) (value : Json) :
    List (Text × Json) → List (Text × Json)
  | [] => [(name, value)]
  | (key, old) :: rest =>
      if key = name then (key, value) :: rest else (key, old) :: putMember name value rest

/-- Null, false, every zero, and everything empty count as no. Not-a-number counts as yes. -/
def holds : Json → Bool
  | .null => false
  | .bool value => value
  | .int value => value ≠ 0
  | .real value => !value.isZero
  | .str value => value ≠ ""
  | .list items => !items.isEmpty
  | .object members => !members.isEmpty

def isNull : Json → Bool
  | .null => true
  | _ => false

theorem member_smaller {name : Text} {members : List (Text × Json)} {value : Json}
    (found : member? name members = some value) : sizeOf value < sizeOf members := by
  induction members with
  | nil => simp [member?] at found
  | cons entry rest ih =>
      obtain ⟨key, first⟩ := entry
      simp only [member?] at found
      split at found
      · cases found
        simp only [List.cons.sizeOf_spec, Prod.mk.sizeOf_spec]
        omega
      · have := ih found
        simp only [List.cons.sizeOf_spec]
        omega

end Json

end GrammarPage
