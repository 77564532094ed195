/-!
Binary floating-point numbers of 64 bits, as exact values. A finite number is a mantissa below 2^53
times a power of two no smaller than 2^-1074; reading a decimal rounds to the nearest of them, and a
tie goes to the even mantissa.
-/

namespace GrammarPage

inductive Binary64 where
  | nan
  | infinite (negative : Bool)
  | finite (negative : Bool) (mantissa : Nat) (exponent : Int)
  deriving DecidableEq, Repr

namespace Binary64

def leastExponent : Int := -1074

def greatestExponent : Int := 971

/-- Mantissas lie below this. -/
def mantissaLimit : Nat := Nat.pow 2 53

/-- The natural number nearest to a quotient; a half goes to the even neighbour. -/
def roundQuotient (num den : Nat) : Nat :=
  let below := num / den
  let rest := num % den
  if 2 * rest < den then below
  else if den < 2 * rest then below + 1
  else if below % 2 = 0 then below else below + 1

/-- The quotient num / den times a power of the base, as a quotient again. -/
def scale (base num den : Nat) (power : Int) : Nat × Nat :=
  if 0 ≤ power then (num * Nat.pow base power.toNat, den)
  else (num, den * Nat.pow base (-power).toNat)

def signedZero (negative : Bool) : Binary64 := .finite negative 0 leastExponent

-- The quotient lies between 2^(log num - log den - 1) and 2^(log num - log den + 1), so the first
-- exponent tried is either right or one too small.
def ofQuotient (negative : Bool) (num den : Nat) : Binary64 :=
  if num = 0 then signedZero negative
  else
    let tried := max leastExponent ((num.log2 : Int) - den.log2 - 53)
    let scaled := scale 2 num den (-tried)
    let exponent := if mantissaLimit * scaled.2 ≤ scaled.1 then tried + 1 else tried
    let fitted := scale 2 num den (-exponent)
    let mantissa := roundQuotient fitted.1 fitted.2
    let carried := if mantissa = mantissaLimit then (mantissaLimit / 2, exponent + 1) else (mantissa, exponent)
    if greatestExponent < carried.2 then .infinite negative
    else .finite negative carried.1 carried.2

def decimalSize (n : Nat) : Nat := (Nat.toDigits 10 n).length

/-- The number nearest to digits · 10^power. Powers far outside the range are settled by size alone,
before any power of ten is taken. -/
def ofDecimal (negative : Bool) (digits : Nat) (power : Int) : Binary64 :=
  let size := decimalSize digits + power
  if digits = 0 || size < -330 then signedZero negative
  else if 310 < size then .infinite negative
  else
    let scaled := scale 10 digits 1 power
    ofQuotient negative scaled.1 scaled.2

/-- The whole part, toward zero, of a finite number. -/
def truncate (negative : Bool) (mantissa : Nat) (exponent : Int) : Int :=
  let scaled := scale 2 mantissa 1 exponent
  let size : Int := scaled.1 / scaled.2
  if negative then -size else size

def isZero : Binary64 → Bool
  | .finite _ 0 _ => true
  | _ => false

end Binary64

end GrammarPage
