import GrammarPage.Json.Fault
import GrammarPage.Text.Basic
import GrammarPage.Text.Hex

/-!
Quoted texts. Scanning starts after the opening quote and gives the content as code units, because an
escape may write half of a surrogate pair; halves are joined afterwards.
-/

namespace GrammarPage.Json

inductive Scan where
  | closed (content : List Nat) (rest : List Char)
  | unclosed
  | broken (fault : Fault) (suffix : List Char)

namespace Scan

def cons (unit : Nat) : Scan → Scan
  | .closed content rest => .closed (unit :: content) rest
  | scan => scan

def rest? : Scan → Option (List Char)
  | .closed _ rest => some rest
  | _ => none

theorem rest_cons (unit : Nat) (scan : Scan) : (scan.cons unit).rest? = scan.rest? := by
  cases scan <;> rfl

end Scan

def plainEscape? (c : Char) : Option Nat :=
  if c = '\x22' || c = '\\' || c = '/' then some c.toNat
  else if c = 'b' then some 0x08
  else if c = 'f' then some 0x0C
  else if c = 'n' then some 0x0A
  else if c = 'r' then some 0x0D
  else if c = 't' then some 0x09
  else none

def codeUnit? (a b c d : Char) : Option Nat := do
  return (((← Text.hexValue? a) * 16 + (← Text.hexValue? b)) * 16 + (← Text.hexValue? c)) * 16
    + (← Text.hexValue? d)

-- A code escape at the very end of the text is broken even when its four digits are there.
def scanText : List Char → Scan
  | [] => .unclosed
  | c :: rest =>
      if c = '\x22' then .closed [] rest
      else if c = '\\' then match rest with
        | [] => .unclosed
        | e :: more =>
            if e = 'u' then match more with
              | h₁ :: h₂ :: h₃ :: h₄ :: next :: after =>
                  match codeUnit? h₁ h₂ h₃ h₄ with
                  | some unit => (scanText (next :: after)).cons unit
                  | none => .broken .brokenCodeEscape (e :: more)
              | _ => .broken .brokenCodeEscape (e :: more)
            else match plainEscape? e with
              | some unit => (scanText more).cons unit
              | none => .broken .unknownEscape (c :: rest)
      else if c.toNat < 0x20 then .broken .controlCharacter (c :: rest)
      else (scanText rest).cons c.toNat

theorem scan_text_shorter {text rest : List Char} (closed : (scanText text).rest? = some rest) :
    rest.length < text.length := by
  fun_induction scanText text with
  | case1 | case3 | case5 | case6 | case8 | case9 => simp [Scan.rest?] at closed
  | case2 => simp_all [Scan.rest?]
  | case4 _ _ _ _ _ _ _ _ _ ih =>
      have := ih (by rwa [Scan.rest_cons] at closed)
      simp only [List.length_cons] at this ⊢
      omega
  | case7 _ _ _ _ _ _ ih | case10 _ _ _ _ _ ih =>
      have := ih (by rwa [Scan.rest_cons] at closed)
      simp only [List.length_cons] at this ⊢
      omega

def isHigh (unit : Nat) : Bool := 0xD800 ≤ unit && unit < 0xDC00

def isLow (unit : Nat) : Bool := 0xDC00 ≤ unit && unit < 0xE000

/-- A code unit on its own. -/
def unitPoint (unit : Nat) : CodePoint :=
  if half : 0xD800 ≤ unit ∧ unit < 0xE000 then .half ⟨unit - 0xD800, by omega⟩ else .char (Char.ofNat unit)

def pairChar (high low : Nat) : Char :=
  Char.ofNat (0x10000 + (high - 0xD800) * 0x400 + (low - 0xDC00))

/-- Joins each high half with the low half right after it; other halves stay on their own. -/
def joinPairs : List Nat → List CodePoint
  | [] => []
  | [unit] => [unitPoint unit]
  | unit :: next :: rest =>
      if isHigh unit && isLow next then .char (pairChar unit next) :: joinPairs rest
      else unitPoint unit :: joinPairs (next :: rest)

end GrammarPage.Json
