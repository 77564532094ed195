import GrammarPage.Json.Basic

/-!
Numerals. A numeral ends where it can no longer go on: 01 is two numerals, and in 1.x the point is not
part of the first. One without fraction and exponent is a whole number, every other a floating-point one.
-/

namespace GrammarPage.Json

structure Numeral where
  negative : Bool
  whole : List Char
  fraction : List Char
  power : Option Int

def natOfDigits (digits : List Char) : Nat :=
  digits.foldl (fun value digit => value * 10 + (digit.toNat - '0'.toNat)) 0

def signed (negative : Bool) (size : Nat) : Int := if negative then -(size : Int) else size

def Numeral.isWhole (numeral : Numeral) : Bool := numeral.fraction = [] && numeral.power.isNone

def Numeral.value (numeral : Numeral) : Json :=
  if numeral.isWhole then .int (signed numeral.negative (natOfDigits numeral.whole))
  else .real (.ofDecimal numeral.negative (natOfDigits (numeral.whole ++ numeral.fraction))
    (numeral.power.getD 0 - numeral.fraction.length))

def digitRun (text : List Char) : List Char × List Char :=
  (text.takeWhile Char.isDigit, text.dropWhile Char.isDigit)

/-- A sign for a minus, none otherwise, and what follows it. -/
def scanMinus : List Char → Bool × List Char
  | '-' :: rest => (true, rest)
  | text => (false, text)

def scanWhole : List Char → Option (List Char × List Char)
  | '0' :: rest => some (['0'], rest)
  | text =>
      let run := digitRun text
      if run.1 = [] then none else some run

/-- The digits of a fraction and what follows; without a digit after it the point is not taken. -/
def scanFraction : List Char → List Char × List Char
  | '.' :: rest =>
      let run := digitRun rest
      if run.1 = [] then ([], '.' :: rest) else run
  | text => ([], text)

def scanPower (negative : Bool) (text : List Char) : Option (Int × List Char) :=
  let run := digitRun text
  if run.1 = [] then none else some (signed negative (natOfDigits run.1), run.2)

def scanSignedPower : List Char → Option (Int × List Char)
  | '-' :: rest => scanPower true rest
  | '+' :: rest => scanPower false rest
  | text => scanPower false text

/-- The power of ten and what follows; without a digit the exponent mark is not taken. -/
def scanExponent : List Char → Option Int × List Char
  | c :: rest =>
      match if c = 'e' || c = 'E' then scanSignedPower rest else none with
      | some (power, after) => (some power, after)
      | none => (none, c :: rest)
  | [] => (none, [])

def scanNumeral (text : List Char) : Option (Numeral × List Char) :=
  let minus := scanMinus text
  (scanWhole minus.2).map fun whole =>
    let fraction := scanFraction whole.2
    let exponent := scanExponent fraction.2
    (⟨minus.1, whole.1, fraction.1, exponent.1⟩, exponent.2)

theorem digit_run_le (text : List Char) : (digitRun text).2.length ≤ text.length :=
  (List.dropWhile_suffix Char.isDigit).length_le

theorem digit_run_lt {text : List Char} (taken : (digitRun text).1 ≠ []) :
    (digitRun text).2.length < text.length := by
  have split : (digitRun text).1.length + (digitRun text).2.length = text.length := by
    rw [← List.length_append]
    exact congrArg List.length List.takeWhile_append_dropWhile
  have := List.length_pos_iff.mpr taken
  omega

theorem scan_minus_le (text : List Char) : (scanMinus text).2.length ≤ text.length := by
  unfold scanMinus
  split <;> simp

theorem scan_whole_lt {text : List Char} {whole : List Char × List Char}
    (found : scanWhole text = some whole) : whole.2.length < text.length := by
  unfold scanWhole at found
  split at found
  · cases found
    simp
  · simp only [Option.ite_none_left_eq_some, Option.some.injEq] at found
    rw [← found.2]
    exact digit_run_lt found.1

theorem scan_fraction_le (text : List Char) : (scanFraction text).2.length ≤ text.length := by
  unfold scanFraction
  split
  · rename_i rest
    have := digit_run_le rest
    simp only
    split
    · exact Nat.le_refl _
    · simp only [List.length_cons]
      omega
  · exact Nat.le_refl _

theorem scan_power_le {negative : Bool} {text : List Char} {found : Int × List Char}
    (taken : scanPower negative text = some found) : found.2.length ≤ text.length := by
  simp only [scanPower, Option.ite_none_left_eq_some, Option.some.injEq] at taken
  rw [← taken.2]
  exact digit_run_le text

theorem scan_signed_power_le {text : List Char} {found : Int × List Char}
    (taken : scanSignedPower text = some found) : found.2.length ≤ text.length := by
  unfold scanSignedPower at taken
  split at taken
  · exact Nat.le_succ_of_le (scan_power_le taken)
  · exact Nat.le_succ_of_le (scan_power_le taken)
  · exact scan_power_le taken

theorem scan_exponent_le (text : List Char) : (scanExponent text).2.length ≤ text.length := by
  unfold scanExponent
  split
  · split
    · rename_i c rest _ power after taken
      simp only [Option.ite_none_right_eq_some] at taken
      have := scan_signed_power_le taken.2
      simp only [List.length_cons] at this ⊢
      omega
    · exact Nat.le_refl _
  · exact Nat.le_refl _

/-- A numeral takes at least one character. -/
theorem scan_numeral_lt {text : List Char} {found : Numeral × List Char}
    (taken : scanNumeral text = some found) : found.2.length < text.length := by
  obtain ⟨whole, first, rfl⟩ := Option.map_eq_some_iff.mp taken
  have := scan_minus_le text
  have := scan_whole_lt first
  have := scan_fraction_le whole.2
  have := scan_exponent_le (scanFraction whole.2).2
  simp only
  omega

end GrammarPage.Json
