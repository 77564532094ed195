import GrammarPage.Files.Look

/-!
ASCII files. A character of ASCII is one octet and needs no other to be read, so a file of ASCII without
carriage returns is read as the text it was written from.
-/

namespace GrammarPage.Text

def Ascii (text : List Char) : Prop := ∀ c ∈ text, c.toNat < 0x80

namespace Utf8

theorem encode_ascii {text : List Char} (ascii : Ascii text) :
    text.flatMap String.utf8EncodeChar = text.map fun c => UInt8.ofNat c.toNat := by
  induction text with
  | nil => rfl
  | cons c rest ih =>
      have single : c.val.toNat ≤ 0x7F := Nat.le_of_lt_succ (ascii c List.mem_cons_self)
      have octet : String.utf8EncodeChar c = [UInt8.ofNat c.toNat] := by
        simp only [String.utf8EncodeChar, single, ↓reduceIte]
        rfl
      rw [List.flatMap_cons, octet, ih fun d member => ascii d (List.mem_cons_of_mem _ member)]
      rfl

theorem start_ascii {c : Char} (ascii : c.toNat < 0x80) : start (UInt8.ofNat c.toNat) = .inl (.char c) := by
  have value : (UInt8.ofNat c.toNat).toNat = c.toNat := by
    rw [UInt8.toNat_ofNat', Nat.mod_eq_of_lt (by omega)]
  have low : UInt8.ofNat c.toNat < 0x80 := by
    rw [UInt8.lt_iff_toNat_lt, value]
    exact ascii
  simp only [start, low, ↓reduceIte, value, Char.ofNat_toNat]

theorem pieces_ascii {text : List Char} (ascii : Ascii text) :
    pieces none (text.map fun c => UInt8.ofNat c.toNat) = text.map .char := by
  induction text with
  | nil => rfl
  | cons c rest ih =>
      rw [List.map_cons, pieces, start_ascii (ascii c List.mem_cons_self)]
      simp only [ih fun d member => ascii d (List.mem_cons_of_mem _ member), List.map_cons]

theorem strict_chars (offset : Nat) (text : List Char) : strictFrom offset (text.map .char) = .ok text := by
  induction text generalizing offset with
  | nil => rfl
  | cons c rest ih =>
      rw [List.map_cons, strictFrom, ih]
      rfl

theorem decode_ascii {text : List Char} (ascii : Ascii text) :
    decode (String.ofList text).toUTF8.data.toList = .ok text := by
  have octets : (String.ofList text).toUTF8.data.toList = text.map fun c => UInt8.ofNat c.toNat := by
    rw [← encode_ascii ascii]
    simp [String.toUTF8, List.utf8Encode]
  rw [octets, decode, pieces_ascii ascii, strict_chars]

end Utf8

end GrammarPage.Text

namespace GrammarPage

theorem strict_text_ascii {text : List Char} (ascii : Text.Ascii text) (bare : '\r' ∉ text) :
    strictText (String.ofList text).toUTF8.data.toList = .ok text := by
  rw [strictText, Text.Utf8.decode_ascii ascii]
  exact congrArg Except.ok (Text.unify_bare bare)

end GrammarPage
