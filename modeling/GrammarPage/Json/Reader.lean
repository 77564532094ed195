import GrammarPage.Json.Token

/-!
Reading a JSON text, one token at a time. A state says which tokens may come next and holds the lists
and objects that are still open. Where a token may not come next, the state alone decides what is
objected to; the place is the token's first character, or the place inside it for a quoted text that
breaks off.
-/

namespace GrammarPage.Json

/-- A list or object that is open and waits for a value. -/
inductive Frame where
  | list (items : List Json)
  | member (members : List (Text × Json)) (name : Text)

inductive State where
  | awaitValue (frames : List Frame)
  | awaitItem (frames : List Frame)
  | awaitFirstName (frames : List Frame)
  | awaitName (members : List (Text × Json)) (frames : List Frame)
  | awaitColon (members : List (Text × Json)) (name : Text) (frames : List Frame)
  | afterItem (items : List Json) (frames : List Frame)
  | afterMember (members : List (Text × Json)) (frames : List Frame)
  | finished (document : Json)

namespace State

/-- Hands a complete value to whatever waits for it. -/
def deliver (value : Json) : List Frame → State
  | [] => .finished value
  | .list items :: frames => .afterItem (items ++ [value]) frames
  | .member members name :: frames => .afterMember (putMember name value members) frames

def objection : State → Fault
  | .awaitValue _ | .awaitItem _ => .expectedValue
  | .awaitFirstName _ | .awaitName _ _ => .expectedName
  | .awaitColon _ _ _ => .expectedColon
  | .afterItem _ _ | .afterMember _ _ => .expectedComma
  | .finished _ => .trailing

def numeral (numeral : Numeral) (frames : List Frame) : Except Fault State :=
  if numeral.isWhole && digitLimit < numeral.whole.length
  then .error (.longNumeral numeral.whole.length)
  else .ok (deliver numeral.value frames)

def valueStep (frames : List Frame) : Token → Except Fault State
  | .scalar value => .ok (deliver value frames)
  | .str value => .ok (deliver (.str value) frames)
  | .numeral found => numeral found frames
  | .openList => .ok (.awaitItem frames)
  | .openObject => .ok (.awaitFirstName frames)
  | .brokenText fault _ => .error fault
  | _ => .error .expectedValue

def nameStep (members : List (Text × Json)) (frames : List Frame) : Token → Except Fault State
  | .str name => .ok (.awaitColon members name frames)
  | .brokenText fault _ => .error fault
  | _ => .error .expectedName

def step : State → Token → Except Fault State
  | .awaitValue frames, token => valueStep frames token
  | .awaitItem frames, .closeList => .ok (deliver (.list []) frames)
  | .awaitItem frames, token => valueStep (.list [] :: frames) token
  | .awaitFirstName frames, .closeObject => .ok (deliver (.object []) frames)
  | .awaitFirstName frames, token => nameStep [] frames token
  | .awaitName members frames, token => nameStep members frames token
  | .awaitColon members name frames, .colon => .ok (.awaitValue (.member members name :: frames))
  | .afterItem items frames, .comma => .ok (.awaitValue (.list items :: frames))
  | .afterItem items frames, .closeList => .ok (deliver (.list items) frames)
  | .afterMember members frames, .comma => .ok (.awaitName members frames)
  | .afterMember members frames, .closeObject => .ok (deliver (.object members) frames)
  | state, _ => .error state.objection

end State

/-- The text from the place at fault on. A quoted text that breaks off is at fault inside itself, but
only where a quoted text could stand. -/
def Lexeme.faultSuffix (lexeme : Lexeme) (fault : Fault) : List Char :=
  match lexeme.token with
  | .brokenText own suffix => if own = fault then suffix else lexeme.suffix
  | _ => lexeme.suffix

def run : State → List Lexeme → Except (Fault × List Char) Json
  | .finished document, [] => .ok document
  | state, [] => .error (state.objection, [])
  | state, lexeme :: rest => match state.step lexeme.token with
    | .ok next => run next rest
    | .error fault => .error (fault, lexeme.faultSuffix fault)

/-- A fault with its place: lines and columns count from one, the offset from zero. -/
structure ReadError where
  fault : Fault
  line : Nat
  column : Nat
  offset : Nat
  deriving DecidableEq, Repr

def ReadError.at (fault : Fault) (before : List Char) : ReadError :=
  ⟨fault, before.count '\n' + 1, (before.reverse.takeWhile (· ≠ '\n')).length + 1, before.length⟩

def ReadError.message (error : ReadError) : String :=
  match error.fault with
  | .longNumeral _ => error.fault.message
  | _ => error.fault.message ++ ": line " ++ toString error.line ++ " column "
      ++ toString error.column ++ " (char " ++ toString error.offset ++ ")"

def read (text : List Char) : Except ReadError Json :=
  if text.head? = some '\uFEFF' then .error (.at .byteOrderMark [])
  else match run (.awaitValue []) (lexemes text) with
    | .ok document => .ok document
    | .error (fault, suffix) => .error (.at fault (text.take (text.length - suffix.length)))

end GrammarPage.Json
