import GrammarPage.Json.Token
import GrammarPage.Json.Writer
import GrammarPage.Text.Encoded

/-!
Quoted texts read back. Every code point is written as its code units, escaped or bare; scanning gives the
units again, and joining the halves of the pairs among them gives the text, if there were no halves in it.
-/

namespace GrammarPage.Json

/-- The code units of a character: one, or a surrogate pair. -/
def units (c : Char) : List Nat :=
  if c.toNat ≤ 0xFFFF then [c.toNat]
  else [0xD800 + (c.toNat - 0x10000) / 0x400, 0xDC00 + (c.toNat - 0x10000) % 0x400]

def pointUnits : CodePoint → List Nat
  | .char c => units c
  | .half offset => [(CodePoint.half offset).toNat]

theorem char_scalar (c : Char) : c.toNat < 0xD800 ∨ (0xDFFF < c.toNat ∧ c.toNat < 0x110000) := c.valid

/-- A character is no half of a pair. -/
theorem char_whole (c : Char) : isHigh c.toNat = false ∧ isLow c.toNat = false := by
  have scalar := char_scalar c
  constructor
  · simp only [isHigh, Bool.and_eq_false_iff, decide_eq_false_iff_not]
    omega
  · simp only [isLow, Bool.and_eq_false_iff, decide_eq_false_iff_not]
    omega

theorem pair_char_units (c : Char) (astral : ¬ c.toNat ≤ 0xFFFF) :
    pairChar (0xD800 + (c.toNat - 0x10000) / 0x400) (0xDC00 + (c.toNat - 0x10000) % 0x400) = c := by
  have whole : 0x10000 + (0xD800 + (c.toNat - 0x10000) / 0x400 - 0xD800) * 0x400
      + (0xDC00 + (c.toNat - 0x10000) % 0x400 - 0xDC00) = c.toNat := by omega
  rw [pairChar, whole, Char.ofNat_toNat]

theorem join_units_cons (c : Char) (rest : List Nat) : joinPairs (units c ++ rest) = .char c :: joinPairs rest := by
  rw [units]
  split
  · case isTrue =>
      obtain ⟨noHigh, noLow⟩ := char_whole c
      have scalar := char_scalar c
      have single : unitPoint c.toNat = c := by
        rw [unitPoint, dif_neg (by omega), Char.ofNat_toNat]
      cases rest with
      | nil => simp [joinPairs, single]
      | cons next rest => simp [joinPairs, noHigh, single]
  · case isFalse astral =>
      have bound := char_scalar c
      have high : isHigh (0xD800 + (c.toNat - 0x10000) / 0x400) = true := by
        simp only [isHigh, Bool.and_eq_true, decide_eq_true_eq]
        omega
      have low : isLow (0xDC00 + (c.toNat - 0x10000) % 0x400) = true := by
        simp only [isLow, Bool.and_eq_true, decide_eq_true_eq]
        omega
      simp [joinPairs, high, low, pair_char_units c astral]

theorem join_units {text : List CodePoint} (whole : ∀ c ∈ text, c.isHalf = false) :
    joinPairs (text.flatMap pointUnits) = text := by
  induction text with
  | nil => rfl
  | cons c rest ih =>
      obtain ⟨first, later⟩ := List.forall_mem_cons.mp whole
      cases c with
      | char c => rw [List.flatMap_cons, pointUnits, join_units_cons, ih later]
      | half offset => cases first

theorem code_unit_digits {unit : Nat} (small : unit < 0x10000) :
    ∃ a b c d, Text.hexDigits 4 unit = [a, b, c, d] ∧ codeUnit? a b c d = some unit := by
  refine ⟨_, _, _, _, by simp only [Text.hexDigits, List.nil_append, List.cons_append]; rfl, ?_⟩
  have digit : ∀ n, Text.hexValue? (Text.hexDigit (n % 16)) = some (n % 16) := fun n =>
    Text.hex_value_digit (Nat.mod_lt n (by decide))
  rw [codeUnit?, digit, digit, digit, digit]
  simp only [bind, Option.bind, pure, Option.some.injEq]
  omega

theorem scan_code_escape {unit : Nat} (small : unit < 0x10000) {rest : List Char} (more : rest ≠ []) :
    scanText (codeEscape unit ++ rest) = (scanText rest).cons unit := by
  obtain ⟨a, b, c, d, digits, value⟩ := code_unit_digits small
  obtain ⟨next, after, rfl⟩ := List.exists_cons_of_ne_nil more
  rw [codeEscape, digits]
  simp [scanText, value]

theorem scan_plain_escape {mark : Char} {unit : Nat} (code : mark ≠ 'u')
    (escape : plainEscape? mark = some unit) (rest : List Char) :
    scanText ('\\' :: mark :: rest) = (scanText rest).cons unit := by
  rw [scanText.eq_def]
  simp [code, escape]

theorem scan_bare {c : Char} (quote : c ≠ '\x22') (backslash : c ≠ '\\') (control : 0x20 ≤ c.toNat)
    (rest : List Char) : scanText (c :: rest) = (scanText rest).cons c.toNat := by
  have printed : ¬ c.toNat < 0x20 := by omega
  rw [scanText.eq_def]
  simp [quote, backslash, printed]

theorem scan_closing (rest : List Char) : scanText ('\x22' :: rest) = .closed [] rest := by
  rw [scanText.eq_def]
  rfl

/-- A character is written as one escape, as itself, or as one or two code escapes. -/
theorem escaped_char_cases (c : Char) :
    (∃ mark, escapedChar c = ['\\', mark] ∧ mark ≠ 'u' ∧ plainEscape? mark = some c.toNat ∧
        c.toNat ≤ 0x7E) ∨
      (escapedChar c = [c] ∧ c ≠ '\x22' ∧ c ≠ '\\' ∧ 0x20 ≤ c.toNat ∧ c.toNat ≤ 0x7E) ∨
      escapedChar c = (units c).flatMap codeEscape := by
  by_cases named : c ∈ ['\x22', '\\', '\n', '\r', '\t', '\x08', '\x0C']
  · left
    simp only [List.mem_cons, List.not_mem_nil, or_false] at named
    rcases named with rfl | rfl | rfl | rfl | rfl | rfl | rfl
    · exact ⟨'\x22', by decide, by decide, by decide, by decide⟩
    · exact ⟨'\\', by decide, by decide, by decide, by decide⟩
    · exact ⟨'n', by decide, by decide, by decide, by decide⟩
    · exact ⟨'r', by decide, by decide, by decide, by decide⟩
    · exact ⟨'t', by decide, by decide, by decide, by decide⟩
    · exact ⟨'b', by decide, by decide, by decide, by decide⟩
    · exact ⟨'f', by decide, by decide, by decide, by decide⟩
  · right
    obtain ⟨quote, backslash, feed, turn, tab, back, page⟩ : c ≠ '\x22' ∧ c ≠ '\\' ∧ c ≠ '\n' ∧
        c ≠ '\r' ∧ c ≠ '\t' ∧ c ≠ '\x08' ∧ c ≠ '\x0C' := by simpa using named
    by_cases printed : 0x20 ≤ c.toNat ∧ c.toNat ≤ 0x7E
    · left
      exact ⟨by simp [escapedChar, quote, backslash, feed, turn, tab, back, page, printed], quote,
        backslash, printed⟩
    · right
      have coded : (decide (0x20 ≤ c.toNat) && decide (c.toNat ≤ 0x7E)) = false := by simpa using printed
      by_cases single : c.toNat ≤ 0xFFFF <;>
        simp [escapedChar, quote, backslash, feed, turn, tab, back, page, coded, units, single]

theorem units_small (c : Char) : ∀ unit ∈ units c, unit < 0x10000 := by
  have bound := char_scalar c
  rw [units]
  split
  · intro unit member
    rw [List.mem_singleton] at member
    omega
  · intro unit member
    simp only [List.mem_cons, List.not_mem_nil, or_false] at member
    omega

theorem scan_code_escapes {codes : List Nat} (small : ∀ unit ∈ codes, unit < 0x10000) {rest : List Char}
    (more : rest ≠ []) : scanText (codes.flatMap codeEscape ++ rest) = codes.foldr Scan.cons (scanText rest) := by
  induction codes with
  | nil => rfl
  | cons unit later ih =>
      have behind : later.flatMap codeEscape ++ rest ≠ [] := by simp [more]
      rw [List.flatMap_cons, List.append_assoc, scan_code_escape (small unit List.mem_cons_self) behind,
        ih fun other member => small other (List.mem_cons_of_mem _ member), List.foldr_cons]

/-- Scanning a written character gives its code units, as long as anything follows. -/
theorem scan_escaped_char (c : Char) {rest : List Char} (more : rest ≠ []) :
    scanText (escapedChar c ++ rest) = (units c).foldr Scan.cons (scanText rest) := by
  have single : c.toNat ≤ 0x7E → units c = [c.toNat] := fun low => if_pos (by omega)
  rcases escaped_char_cases c with ⟨mark, text, code, escape, high⟩ | ⟨text, quote, backslash, low, high⟩ | text
  · rw [text, single high]
    exact scan_plain_escape code escape rest
  · rw [text, single high]
    exact scan_bare quote backslash low rest
  · rw [text]
    exact scan_code_escapes (units_small c) more

theorem scan_escaped_point (c : CodePoint) {rest : List Char} (more : rest ≠ []) :
    scanText (escapedPoint c ++ rest) = (pointUnits c).foldr Scan.cons (scanText rest) := by
  cases c with
  | char c => exact scan_escaped_char c more
  | half offset =>
      have small : (CodePoint.half offset).toNat < 0x10000 := by
        rw [CodePoint.toNat]
        omega
      exact scan_code_escape small more

theorem scan_escaped (text : List CodePoint) (rest : List Char) :
    scanText (text.flatMap escapedPoint ++ '\x22' :: rest) = .closed (text.flatMap pointUnits) rest := by
  induction text with
  | nil => exact scan_closing rest
  | cons c later ih =>
      rw [List.flatMap_cons, List.append_assoc, scan_escaped_point c (by simp), ih, List.flatMap_cons]
      generalize later.flatMap pointUnits = content
      induction pointUnits c with
      | nil => rfl
      | cons unit others inner => rw [List.foldr_cons, inner]; rfl

/-- A quoted text is one token, which holds the text. -/
theorem next_token_quoted {text : Text} (whole : text.Whole) (rest : List Char) :
    nextToken '\x22' (text.toList.flatMap escapedPoint ++ '\x22' :: rest) = (.str text, rest) := by
  have scanned : scanQuoted '\x22' (text.toList.flatMap escapedPoint ++ '\x22' :: rest) = (.str text, rest) := by
    rw [scanQuoted, scan_escaped]
    simp only [join_units whole]
  exact scanned

end GrammarPage.Json
