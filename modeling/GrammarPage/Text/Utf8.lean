import GrammarPage.Text.Hex

/-!
UTF-8, one octet at a time. Octets are read as a list of pieces: characters, and faults that cover the
longest run of octets that could still have begun a character. Strict reading stops at the first
fault; lenient reading puts U+FFFD in the place of each.
-/

namespace GrammarPage.Text.Utf8

inductive Reason where
  | startOctet
  | continuationOctet
  | endOfData
  deriving DecidableEq, Repr

def Reason.message : Reason → String
  | .startOctet => "invalid start byte"
  | .continuationOctet => "invalid continuation byte"
  | .endOfData => "unexpected end of data"

inductive Piece where
  | char (c : Char)
  | fault (octets : List UInt8) (reason : Reason)
  deriving DecidableEq, Repr

/-- A character begun and not finished: the octets so far, the bits they carry, the number of octets
that are still to come, and the range in which the next of them has to lie. -/
structure Begun where
  octets : List UInt8
  bits : Nat
  missing : Nat
  low : UInt8
  high : UInt8

-- The narrow ranges after E0, ED, F0 and F4 leave out overlong forms, surrogates and values above
-- U+10FFFF; C0, C1 and F5 to FF begin no character at all.
def start (octet : UInt8) : Piece ⊕ Begun :=
  let n := octet.toNat
  if octet < 0x80 then .inl (.char (Char.ofNat n))
  else if octet < 0xC2 then .inl (.fault [octet] .startOctet)
  else if octet < 0xE0 then .inr ⟨[octet], n - 0xC0, 1, 0x80, 0xBF⟩
  else if octet = 0xE0 then .inr ⟨[octet], 0, 2, 0xA0, 0xBF⟩
  else if octet = 0xED then .inr ⟨[octet], 0x0D, 2, 0x80, 0x9F⟩
  else if octet < 0xF0 then .inr ⟨[octet], n - 0xE0, 2, 0x80, 0xBF⟩
  else if octet = 0xF0 then .inr ⟨[octet], 0, 3, 0x90, 0xBF⟩
  else if octet < 0xF4 then .inr ⟨[octet], n - 0xF0, 3, 0x80, 0xBF⟩
  else if octet = 0xF4 then .inr ⟨[octet], 4, 3, 0x80, 0x8F⟩
  else .inl (.fault [octet] .startOctet)

def Begun.admits (begun : Begun) (octet : UInt8) : Bool :=
  begun.low ≤ octet && octet ≤ begun.high

def Begun.extend (begun : Begun) (octet : UInt8) : Piece ⊕ Begun :=
  let bits := begun.bits * 64 + (octet.toNat - 0x80)
  if begun.missing ≤ 1 then .inl (.char (Char.ofNat bits))
  else .inr ⟨begun.octets ++ [octet], bits, begun.missing - 1, 0x80, 0xBF⟩

/-- An octet that cannot go on with the character begun ends it and is read again as a first octet. -/
def pieces : Option Begun → List UInt8 → List Piece
  | none, [] => []
  | some begun, [] => [.fault begun.octets .endOfData]
  | none, octet :: rest => match start octet with
    | .inl piece => piece :: pieces none rest
    | .inr begun => pieces (some begun) rest
  | some begun, octet :: rest =>
      if begun.admits octet then match begun.extend octet with
        | .inl piece => piece :: pieces none rest
        | .inr further => pieces (some further) rest
      else .fault begun.octets .continuationOctet :: match start octet with
        | .inl piece => piece :: pieces none rest
        | .inr other => pieces (some other) rest

/-- Where strict reading stopped: the offset of the first octet at fault, and the fault. -/
structure Fault where
  offset : Nat
  octets : List UInt8
  reason : Reason
  deriving DecidableEq, Repr

def strictFrom (offset : Nat) : List Piece → Except Fault (List Char)
  | [] => .ok []
  | .char c :: rest => (strictFrom (offset + c.utf8Size) rest).map (c :: ·)
  | .fault octets reason :: _ => .error ⟨offset, octets, reason⟩

def decode (octets : List UInt8) : Except Fault (List Char) := strictFrom 0 (pieces none octets)

def decodeLenient (octets : List UInt8) : List Char :=
  (pieces none octets).map fun
    | .char c => c
    | .fault _ _ => '\uFFFD'

def Fault.message (fault : Fault) : String :=
  let place := match fault.octets with
    | [octet] => "byte 0x" ++ String.ofList (hexDigits 2 octet.toNat) ++ " in position " ++ toString fault.offset
    | octets => "bytes in position " ++ toString fault.offset ++ "-"
        ++ toString (fault.offset + octets.length - 1)
  "'utf-8' codec can't decode " ++ place ++ ": " ++ fault.reason.message

end GrammarPage.Text.Utf8
