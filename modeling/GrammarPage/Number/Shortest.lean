import GrammarPage.Number.Binary64

/-!
The decimal text of a floating-point number: the fewest digits that read back as the number, and of
those the nearest to it. Digits are sought on coarser grids first; on each grid only the two
neighbours of the number can be hits.
-/

namespace GrammarPage.Binary64

structure Decimal where
  digits : Nat
  power : Int
  deriving DecidableEq, Repr

/-- The neighbours of a quotient among the natural numbers, the nearer first. -/
def neighbours (num den : Nat) : List Nat :=
  let below := num / den
  if num % den = 0 then [below]
  else if roundQuotient num den = below then [below, below + 1] else [below + 1, below]

/-- The value of a finite number in units of a power of ten, as a quotient. -/
def inUnits (mantissa : Nat) (exponent power : Int) : Nat × Nat :=
  let whole := scale 2 mantissa 1 exponent
  scale 10 whole.1 whole.2 (-power)

def gridHit? (mantissa : Nat) (exponent power : Int) : Option Decimal :=
  let units := inUnits mantissa exponent power
  ((neighbours units.1 units.2).find? fun digits =>
    ofDecimal false digits power = .finite false mantissa exponent).map (⟨·, power⟩)

/-- The place of the leading digit: the value is at least 10^(place - 1) and less than 10^place. -/
def leadingPlace (mantissa : Nat) (exponent : Int) : Int :=
  let whole := scale 2 mantissa 1 exponent
  let tried := (decimalSize whole.1 : Int) - decimalSize whole.2
  let scaled := scale 10 whole.1 whole.2 (-tried)
  if scaled.2 ≤ scaled.1 then tried + 1 else tried

-- Seventeen digits always read back, so the last grid needs no test.
def shortest (mantissa : Nat) (exponent : Int) : Decimal :=
  let place := leadingPlace mantissa exponent
  ((List.range 16).findSome? fun (count : Nat) =>
    gridHit? mantissa exponent (place - 1 - count)).getD
    (let units := inUnits mantissa exponent (place - 17)
     ⟨roundQuotient units.1 units.2, place - 17⟩)

/-- How a number is laid out once its digits are known. -/
structure Format where
  leastPositional : Int
  leastScientific : Int
  exponentWidth : Nat

/-- Positional notation from 10^-4 up to 10^16, with at least one digit after the point; outside that
range an exponent with a sign and at least two digits. -/
def format : Format := ⟨-4, 16, 2⟩

def zeros (count : Int) : List Char := List.replicate count.toNat '0'

def trimZeros (digits : List Char) : List Char := (digits.reverse.dropWhile (· = '0')).reverse

def positional (digits : List Char) (lead : Int) : List Char :=
  if lead < 0 then '0' :: '.' :: zeros (-lead - 1) ++ digits
  else
    let whole := digits.take (lead + 1).toNat
    let fraction := digits.drop (lead + 1).toNat
    whole ++ zeros (lead + 1 - digits.length) ++ '.' :: (if fraction = [] then ['0'] else fraction)

def scientific (width : Nat) (digits : List Char) (lead : Int) : List Char :=
  let power := Nat.toDigits 10 lead.natAbs
  let mark := (if lead < 0 then '-' else '+') :: zeros (width - power.length) ++ power
  match digits with
  | [] => 'e' :: mark
  | [digit] => digit :: 'e' :: mark
  | digit :: more => digit :: '.' :: more ++ 'e' :: mark

def Format.text (format : Format) : Binary64 → List Char
  | .nan => "nan".toList
  | .infinite negative => (if negative then ['-'] else []) ++ "inf".toList
  | .finite negative mantissa exponent =>
      let sign := if negative then ['-'] else []
      if mantissa = 0 then sign ++ "0.0".toList
      else
        let found := shortest mantissa exponent
        let digits := Nat.toDigits 10 found.digits
        let lead := found.power + digits.length - 1
        sign ++
          if format.leastPositional ≤ lead && lead < format.leastScientific
          then positional (trimZeros digits) lead
          else scientific format.exponentWidth (trimZeros digits) lead

def text (x : Binary64) : List Char := format.text x

end GrammarPage.Binary64
