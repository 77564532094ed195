import GrammarPage.Proofs.Interchange.Mirrored
import GrammarPage.Proofs.Interchange.Saved

/-!
Why a file gives no grammar. Opening, decoding, parsing and reading come one after the other, and the first of them
that fails names the fault.
-/

namespace GrammarPage.Interchange

/-- Why a look at a path does not give a grammar: nothing to be opened, octets that are no text, a text that is no
document, or a document that is no grammar. -/
inductive Refused (path : Path) : Look → FileFault → Prop where
  | cannotOpen {look : Look} {fault : OpenFault} (closed : look.octets = .error fault) :
      Refused path look (.cannotOpen path.text fault)
  | undecodable {octets : List UInt8} {fault : Text.Utf8.Fault} (faulty : strictText octets = .error fault) :
      Refused path (.file octets) (.undecodable fault)
  | unread {octets : List UInt8} {text : List Char} {error : Json.ReadError} (decoded : strictText octets = .ok text)
      (faulty : Json.read text = .error error) : Refused path (.file octets) (jsonFault path.text error)
  | invalid {octets : List UInt8} {text : List Char} {document : Json} {error : LoadError}
      (decoded : strictText octets = .ok text) (parsed : Json.read text = .ok document)
      (faulty : readGrammar document = .error error) : Refused path (.file octets) (.invalid error)

theorem refused_iff {path : Path} {look : Look} {fault : FileFault} :
    grammarOfFile path look = .error fault ↔ Refused path look fault := by
  constructor
  · intro refused
    rcases bind_error_iff.mp refused with closed | ⟨octets, opened, undone⟩
    · obtain ⟨cause, shut, rfl⟩ := map_error_error_iff.mp closed
      exact .cannotOpen shut
    obtain rfl := Look.octets_ok_iff.mp (map_error_ok_iff.mp opened)
    rcases bind_error_iff.mp undone with undecoded | ⟨text, decoded, unread⟩
    · obtain ⟨cause, faulty, rfl⟩ := map_error_error_iff.mp undecoded
      exact .undecodable faulty
    rcases bind_error_iff.mp unread with unparsed | ⟨document, parsed, invalid⟩
    · obtain ⟨cause, faulty, rfl⟩ := map_error_error_iff.mp unparsed
      exact .unread (map_error_ok_iff.mp decoded) faulty
    rcases bind_error_iff.mp invalid with invalid | ⟨grammar, -, named⟩
    · obtain ⟨cause, faulty, rfl⟩ := map_error_error_iff.mp invalid
      exact .invalid (map_error_ok_iff.mp decoded) (map_error_ok_iff.mp parsed) faulty
    · cases named
  · intro refused
    have opens (octets : List UInt8) : grammarOfFile path (.file octets) = grammarOfOctets path octets := rfl
    cases refused with
    | cannotOpen closed => rw [grammarOfFile, closed]; rfl
    | undecodable faulty => rw [opens, grammarOfOctets, faulty]; rfl
    | unread decoded faulty => rw [opens, grammarOfOctets, stage_ok decoded, faulty]; rfl
    | invalid decoded parsed faulty =>
        rw [opens, grammarOfOctets, stage_ok decoded, stage_ok parsed, faulty]
        rfl

/-- A file that is there can be opened. -/
theorem file_opened {path : Path} {octets : List UInt8} {name : Text} {fault : OpenFault} :
    grammarOfFile path (.file octets) ≠ .error (.cannotOpen name fault) := by
  intro refused
  generalize named : FileFault.cannotOpen name fault = cause at refused
  cases refused_iff.mp refused with
  | cannotOpen closed => cases closed
  | undecodable | invalid => cases named
  | unread =>
      rw [jsonFault] at named
      split at named <;> cases named

end GrammarPage.Interchange
