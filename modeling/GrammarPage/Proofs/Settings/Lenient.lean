import GrammarPage.Display.SettingsFile
import GrammarPage.Proofs.Interchange.Mirrored
import GrammarPage.Proofs.Json.Distinct

/-!
Settings as a document gives them. Each style has a colour of its own, or else its default, and what one of
them holds says nothing about another, nor about the start symbol and the title. An infinite component that
is reached refuses the document as a whole.
-/

namespace GrammarPage

namespace Settings

section Components

/-- What a value comes to as a whole number. -/
inductive Counts : Json → Int → Prop where
  | bool (value : Bool) : Counts (.bool value) (if value then 1 else 0)
  | int (value : Int) : Counts (.int value) value
  | real (negative : Bool) (mantissa : Nat) (exponent : Int) :
      Counts (.real (.finite negative mantissa exponent)) (Binary64.truncate negative mantissa exponent)
  | str {text : Text} {value : Int} (spelled : Text.wholeNumber? Json.digitLimit text.toList = some value) :
      Counts (.str text) value

def IsInfinite (value : Json) : Prop := ∃ negative, value = .real (.infinite negative)

theorem component_ok_iff {value : Json} {number : Int} : component value = .ok number ↔ Counts value number := by
  constructor
  · intro read
    cases value with
    | bool flag =>
        cases read
        exact .bool flag
    | int whole =>
        cases read
        exact .int _
    | real real =>
        cases real with
        | finite negative mantissa exponent =>
            cases read
            exact .real negative mantissa exponent
        | nan | infinite _ => cases read
    | str text =>
        rw [component] at read
        split at read
        · cases read
          exact .str ‹_›
        · cases read
    | null | list _ | object _ => cases read
  · intro counts
    cases counts with
    | str spelled => rw [component, spelled]
    | _ => rfl

theorem component_infinite_iff {value : Json} : component value = .error .infinite ↔ IsInfinite value := by
  constructor
  · intro read
    cases value with
    | real real =>
        cases real with
        | infinite negative => exact ⟨negative, rfl⟩
        | nan | finite _ _ _ => cases read
    | str text =>
        rw [component] at read
        split at read <;> cases read
    | null | bool _ | int _ | list _ | object _ => cases read
  · rintro ⟨negative, rfl⟩
    rfl

end Components

section Colours
variable {value : Json} {italic : Bool}

/-- What a colour is written as: a list of components alone, or within an object that may ask for italics. -/
inductive Writes : Json → Bool → List Json → Prop where
  | bare (components : List Json) : Writes (.list components) false components
  | inside {members : List (Text × Json)} {components : List Json}
      (found : (Json.object members).get "rgb" = .list components) :
      Writes (.object members) ((Json.object members).get "italic").holds components

/-- A value that gives a colour: three components that come to whole numbers from 0 to 255. -/
def Gives (value : Json) (swatch : Swatch) : Prop :=
  ∃ red green blue, Writes value swatch.italic [red, green, blue] ∧ Counts red swatch.red.toNat ∧
    Counts green swatch.green.toNat ∧ Counts blue swatch.blue.toNat

/-- One of three components is infinite, and all before it are numbers. -/
def Overflows (value : Json) : Prop :=
  ∃ italic before infinite after, Writes value italic (before ++ infinite :: after) ∧
    before.length + after.length = 2 ∧ (∀ component ∈ before, ∃ number, Counts component number) ∧
    IsInfinite infinite

theorem octet_iff {number : Int} {octet : UInt8} : octet? number = some octet ↔ number = octet.toNat := by
  simp only [octet?, Bool.and_eq_true, decide_eq_true_eq, Option.ite_none_right_eq_some, Option.some.injEq]
  constructor
  · rintro ⟨⟨low, high⟩, rfl⟩
    rw [Nat.toUInt8_eq, UInt8.toNat_ofNat']
    omega
  · rintro rfl
    have := octet.toNat_lt
    refine ⟨by omega, ?_⟩
    simp

section Read
variable {red green blue : Json} {swatch : Swatch}

/-- Three components are read one after the other, and only then is their range looked at. -/
theorem swatch_of_ok_iff :
    swatchOf italic red green blue = .ok swatch ↔
      swatch.italic = italic ∧ Counts red swatch.red.toNat ∧ Counts green swatch.green.toNat ∧
        Counts blue swatch.blue.toNat := by
  simp only [swatchOf, bind_ok_iff, component_ok_iff]
  constructor
  · rintro ⟨first, countsRed, second, countsGreen, third, countsBlue, made⟩
    split at made
    · rename_i redOctet greenOctet blueOctet
      cases made
      rw [octet_iff.mp redOctet] at countsRed
      rw [octet_iff.mp greenOctet] at countsGreen
      rw [octet_iff.mp blueOctet] at countsBlue
      exact ⟨rfl, countsRed, countsGreen, countsBlue⟩
    · cases made
  · rintro ⟨rfl, countsRed, countsGreen, countsBlue⟩
    refine ⟨_, countsRed, _, countsGreen, _, countsBlue, ?_⟩
    simp only [octet_iff.mpr rfl]
    rfl

theorem swatch_of_infinite_iff :
    swatchOf italic red green blue = .error .infinite ↔
      IsInfinite red ∨ (∃ number, Counts red number) ∧
        (IsInfinite green ∨ (∃ number, Counts green number) ∧ IsInfinite blue) := by
  simp only [swatchOf, bind_error_iff, component_ok_iff, component_infinite_iff]
  constructor
  · rintro (infinite | ⟨_, counts, infinite | ⟨_, counts', infinite | ⟨_, _, made⟩⟩⟩)
    · exact .inl infinite
    · exact .inr ⟨⟨_, counts⟩, .inl infinite⟩
    · exact .inr ⟨⟨_, counts⟩, .inr ⟨⟨_, counts'⟩, infinite⟩⟩
    · split at made <;> cases made
  · rintro (infinite | ⟨⟨first, counts⟩, infinite | ⟨⟨second, counts'⟩, infinite⟩⟩)
    · exact .inl infinite
    · exact .inr ⟨first, counts, .inl infinite⟩
    · exact .inr ⟨first, counts, .inr ⟨second, counts', .inl infinite⟩⟩

end Read

theorem colour_of_three {components : List Json} {found : Except Objection Swatch}
    (other : found ≠ .error .unusable) :
    colour italic (.list components) = found ↔
      ∃ red green blue, components = [red, green, blue] ∧ swatchOf italic red green blue = found := by
  match components with
  | [red, green, blue] =>
      constructor
      · exact fun read => ⟨red, green, blue, rfl, read⟩
      · rintro ⟨_, _, _, same, read⟩
        cases same
        exact read
  | [] | [_] | [_, _] | _ :: _ :: _ :: _ :: _ =>
      constructor
      · intro read
        exact absurd read.symm other
      · rintro ⟨_, _, _, same, -⟩
        cases same

/-- Whatever is read from a value but an objection to it is read from the three components it writes. -/
theorem swatch_of_three {found : Except Objection Swatch} (other : found ≠ .error .unusable) :
    swatch value = found ↔
      ∃ italic red green blue, Writes value italic [red, green, blue] ∧
        swatchOf italic red green blue = found := by
  constructor
  · intro read
    cases value with
    | list components =>
        obtain ⟨red, green, blue, rfl, made⟩ := (colour_of_three other).mp read
        exact ⟨false, red, green, blue, .bare _, made⟩
    | object members =>
        rw [swatch] at read
        cases inside : (Json.object members).get "rgb" with
        | list components =>
            rw [inside] at read
            obtain ⟨red, green, blue, rfl, made⟩ := (colour_of_three other).mp read
            exact ⟨_, red, green, blue, .inside inside, made⟩
        | _ =>
            rw [inside] at read
            exact absurd read.symm other
    | _ => exact absurd read.symm other
  · rintro ⟨italic, red, green, blue, writes, made⟩
    cases writes with
    | bare components => exact made
    | inside inside =>
        rw [swatch, inside]
        exact made

theorem swatch_ok_iff {found : Swatch} : swatch value = .ok found ↔ Gives value found := by
  rw [swatch_of_three (by simp)]
  simp only [swatch_of_ok_iff, Gives]
  constructor
  · rintro ⟨italic, red, green, blue, writes, rfl, counts⟩
    exact ⟨red, green, blue, writes, counts⟩
  · rintro ⟨red, green, blue, writes, counts⟩
    exact ⟨_, red, green, blue, writes, rfl, counts⟩

theorem swatch_infinite_iff : swatch value = .error .infinite ↔ Overflows value := by
  rw [swatch_of_three (by simp)]
  simp only [swatch_of_infinite_iff, Overflows]
  constructor
  · rintro ⟨italic, red, green, blue, writes, infinite | ⟨counts, infinite | ⟨counts', infinite⟩⟩⟩
    · exact ⟨italic, [], red, [green, blue], writes, rfl, by simp, infinite⟩
    · exact ⟨italic, [red], green, [blue], writes, rfl, by simpa using counts, infinite⟩
    · exact ⟨italic, [red, green], blue, [], writes, rfl, by simpa using ⟨counts, counts'⟩, infinite⟩
  · rintro ⟨italic, before, infinite, after, writes, three, counts, isInfinite⟩
    match before, after with
    | [], [green, blue] => exact ⟨italic, _, green, blue, writes, .inl isInfinite⟩
    | [red], [blue] => exact ⟨italic, red, _, blue, writes, .inr ⟨counts red (by simp), .inl isInfinite⟩⟩
    | [red, green], [] =>
        exact ⟨italic, red, green, _, writes,
          .inr ⟨counts red (by simp), .inr ⟨counts green (by simp), isInfinite⟩⟩⟩
    | [], [] | [], [_] | [], _ :: _ :: _ :: _ | [_], [] | [_], _ :: _ :: _ | [_, _], _ :: _
    | _ :: _ :: _ :: _, _ => simp at three <;> omega

end Colours

section Palettes
variable {members : List (Text × Json)} {palette found : Palette}

theorem of_name_iff {name : Text} {style : Style} : Style.ofName? name = some style ↔ name = style.name := by
  constructor
  · intro known
    have named := List.find?_some known
    exact (of_decide_eq_true named).symm
  · rintro rfl
    exact style.of_name_name

theorem name_inj {left right : Style} : left.name = right.name ↔ left = right := by
  rw [← of_name_iff, Style.of_name_name, Option.some_inj]

/-- The colour that a value gives, if there is one and it is of use. -/
def ownSwatch (own : Option Json) : Option Swatch := own.bind fun value => (swatch value).toOption

/-- Reading a palette stops at the first of its styles whose value overflows. -/
theorem read_palette_error_iff {fault : Fault} :
    readPalette palette members = .error fault ↔
      ∃ (style : Style) (value : Json), (style.name, value) ∈ members ∧ Overflows value := by
  induction members generalizing palette with
  | nil => simp [readPalette]
  | cons entry rest ih =>
      obtain ⟨name, value⟩ := entry
      -- The other styles of the rest decide, unless this entry is at fault itself.
      have split : (∃ (style : Style) (value' : Json), (style.name, value') ∈ (name, value) :: rest ∧
          Overflows value') ↔
          (∃ style : Style, name = style.name ∧ Overflows value) ∨
            ∃ (style : Style) (value' : Json), (style.name, value') ∈ rest ∧ Overflows value' := by
        grind
      rw [split, readPalette]
      cases known : Style.ofName? name with
      | none =>
          have foreign : ∀ style : Style, name ≠ style.name := fun style same => by
            rw [of_name_iff.mpr same] at known
            cases known
          simp only [ih, foreign, false_and, exists_false, false_or]
      | some style =>
          obtain rfl := of_name_iff.mp known
          simp only [name_inj, exists_eq_left']
          cases read : swatch value with
          | ok given => simp only [ih, ← swatch_infinite_iff, read, reduceCtorEq, false_or]
          | error objection =>
              cases objection with
              | unusable => simp only [ih, ← swatch_infinite_iff, read, reduceCtorEq, Except.error.injEq, false_or]
              | infinite => simp only [← swatch_infinite_iff, read, true_or]

theorem read_palette_get (names : (members.map Prod.fst).Nodup)
    (read : readPalette palette members = .ok found) (style : Style) :
    found style = (ownSwatch (Json.member? style.name members) <|> palette style) := by
  induction members generalizing palette with
  | nil =>
      cases read
      rfl
  | cons entry rest ih =>
      obtain ⟨name, value⟩ := entry
      obtain ⟨new, later⟩ := List.nodup_cons.mp names
      rw [readPalette] at read
      rw [Json.member?]
      cases known : Style.ofName? name with
      | none =>
          have foreign : name ≠ style.name := fun same => by
            rw [of_name_iff.mpr same] at known
            cases known
          rw [known] at read
          rw [if_neg foreign, ih later read]
      | some other =>
          obtain rfl := of_name_iff.mp known
          rw [known] at read
          have absent : Json.member? other.name rest = none := by
            rw [Option.eq_none_iff_forall_ne_some]
            exact fun _ held => new (List.mem_map.mpr ⟨_, Json.mem_of_member held, rfl⟩)
          cases own : swatch value with
          | ok given =>
              simp only [own] at read
              rw [ih later read]
              by_cases same : other = style
              · subst same
                rw [if_pos rfl, absent]
                simp [ownSwatch, own, Palette.set, Except.toOption]
              · rw [if_neg (name_inj.not.mpr same), Palette.set, if_neg (Ne.symm same)]
          | error objection =>
              cases objection with
              | unusable =>
                  simp only [own] at read
                  rw [ih later read]
                  by_cases same : other = style
                  · subst same
                    rw [if_pos rfl, absent]
                    simp [ownSwatch, own, Except.toOption]
                  · rw [if_neg (name_inj.not.mpr same)]
              | infinite => simp [own] at read

end Palettes

/-! Settings as a whole. -/

/-- What a document says about the colour of a style. -/
def ownColour (document : Json) (style : Style) : Option Json := (setting document "Palette").get? style.name

/-- The colour of a style: the one that is given for it, or the default if nothing of use is given. -/
def Coloured (own : Option Json) (default swatch : Swatch) : Prop :=
  (∃ value, own = some value ∧ Gives value swatch) ∨
    (∀ value, own = some value → ∀ other, ¬ Gives value other) ∧ swatch = default

/-- Settings that follow a document in each of their parts by itself. -/
structure Follows (document : Json) (settings : Settings) : Prop where
  palette : ∀ style, ∃ swatch, settings.palette style = some swatch ∧
    Coloured (ownColour document style) (Palette.defaultSwatch style) swatch
  startSymbol :
    (∃ text, setting document "StartSymbol" = .str text ∧ text ≠ "" ∧ settings.startSymbol = text) ∨
    (∀ text, setting document "StartSymbol" = .str text → text = "") ∧
      settings.startSymbol = default.startSymbol
  title : (∃ text, setting document "Title" = .str text ∧ settings.title = some text) ∨
    (∀ text, setting document "Title" ≠ .str text) ∧ settings.title = default.title

/-- A document in which the colour of some style overflows. -/
def Overflowing (document : Json) : Prop := ∃ style value, ownColour document style = some value ∧ Overflows value

section Documents
variable {document : Json}

theorem coloured_own {own : Option Json} {swatch : Swatch} {default : Swatch}
    (chosen : (ownSwatch own <|> some default) = some swatch) : Coloured own default swatch := by
  cases own with
  | none =>
      cases chosen
      exact .inr ⟨by simp, rfl⟩
  | some value =>
      rw [ownSwatch, Option.bind_some] at chosen
      cases read : Settings.swatch value with
      | ok given =>
          rw [read] at chosen
          cases chosen
          exact .inl ⟨value, rfl, swatch_ok_iff.mp read⟩
      | error objection =>
          rw [read] at chosen
          cases chosen
          refine .inr ⟨?_, rfl⟩
          rintro _ ⟨⟩ other gives
          rw [swatch_ok_iff.mpr gives] at read
          cases read

theorem setting_distinct (distinct : document.Distinct) (name : Text) : (setting document name).Distinct := by
  have entry := distinct.get name
  rw [setting]
  cases found : (document.get name).get? "value" with
  | none => exact entry
  | some value => exact entry.get_some found

/-- Only the palette can refuse a document. -/
theorem of_document_ok {palette : Palette} (read : paletteOf document = .ok palette) :
    ofDocument document = .ok ⟨palette, startSymbolOf document, titleOf document⟩ := by
  rw [ofDocument, read]
  rfl

theorem of_document_error {fault : Fault} (read : paletteOf document = .error fault) :
    ofDocument document = .error fault := by
  rw [ofDocument, read]
  rfl

theorem start_symbol_given (document : Json) :
    (∃ text, setting document "StartSymbol" = .str text ∧ text ≠ "" ∧ startSymbolOf document = text) ∨
      (∀ text, setting document "StartSymbol" = .str text → text = "") ∧
        startSymbolOf document = default.startSymbol := by
  rw [startSymbolOf]
  cases setting document "StartSymbol" with
  | str text =>
      by_cases empty : text = ""
      · exact .inr ⟨by simp [empty], by simp [empty]⟩
      · exact .inl ⟨text, rfl, empty, by simp [empty]⟩
  | _ => exact .inr ⟨by simp, rfl⟩

theorem title_given (document : Json) :
    (∃ text, setting document "Title" = .str text ∧ titleOf document = some text) ∨
      (∀ text, setting document "Title" ≠ .str text) ∧ titleOf document = default.title := by
  rw [titleOf]
  cases setting document "Title" with
  | str text => exact .inl ⟨text, rfl, rfl⟩
  | _ => exact .inr ⟨by simp, rfl⟩

/-- The palette of a document is refused, or it has the own colour of each style or else its default. -/
theorem palette_of_cases (distinct : document.Distinct) :
    (Overflowing document ∧ paletteOf document = .error .infiniteComponent) ∨
      ¬ Overflowing document ∧ ∃ palette, paletteOf document = .ok palette ∧
        ∀ style, palette style = (ownSwatch (ownColour document style) <|> Palette.default style) := by
  have whole := setting_distinct distinct "Palette"
  simp only [Overflowing, ownColour, paletteOf]
  cases given : setting document "Palette" with
  | object members =>
      rw [given] at whole
      have names := whole.members.1
      have overflowing : (∃ (style : Style) (value : Json), (Json.object members).get? style.name = some value ∧
          Overflows value) ↔ ∃ (style : Style) (value : Json), (style.name, value) ∈ members ∧ Overflows value := by
        simp only [Json.get?, Json.member_iff names]
      rw [overflowing]
      cases read : readPalette .default members with
      | error fault =>
          cases fault
          exact .inl ⟨read_palette_error_iff.mp read, read⟩
      | ok palette =>
          refine .inr ⟨fun overflows => ?_, palette, read, read_palette_get names read⟩
          have refused : readPalette .default members = .error .infiniteComponent :=
            read_palette_error_iff.mpr overflows
          cases refused.symm.trans read
  | _ => exact .inr ⟨by simp [Json.get?], _, rfl, fun style => rfl⟩

theorem of_document_refused_iff (distinct : document.Distinct) {fault : Fault} :
    ofDocument document = .error fault ↔ Overflowing document := by
  cases fault
  rcases palette_of_cases distinct with ⟨overflows, refused⟩ | ⟨within, palette, read, -⟩
  · exact ⟨fun _ => overflows, fun _ => of_document_error refused⟩
  · refine ⟨fun refused => ?_, fun overflows => absurd overflows within⟩
    cases refused.symm.trans (of_document_ok read)

/-- Unless a colour overflows, settings are read from every document, and each of their parts follows what the
document says about that part alone; if one does, none are. -/
theorem settings_read_apart (distinct : document.Distinct) :
    (Overflowing document → ofDocument document = .error .infiniteComponent) ∧
      (¬ Overflowing document → ∃ settings, ofDocument document = .ok settings ∧ Follows document settings) := by
  rcases palette_of_cases distinct with ⟨overflows, refused⟩ | ⟨within, palette, read, own⟩
  · exact ⟨fun _ => of_document_error refused, fun within => absurd overflows within⟩
  · refine ⟨fun overflows => absurd overflows within, fun _ => ⟨_, of_document_ok read, ?_⟩⟩
    refine ⟨fun style => ?_, start_symbol_given document, title_given document⟩
    obtain ⟨swatch, chosen⟩ : ∃ swatch, palette style = some swatch := by
      rw [own]
      cases ownSwatch (ownColour document style) with
      | none => exact ⟨_, rfl⟩
      | some swatch => exact ⟨swatch, rfl⟩
    refine ⟨swatch, chosen, coloured_own ?_⟩
    rw [← chosen, own]
    rfl

/-- Colours in use and of no use side by side; the infinite component is none that is reached. -/
theorem settings_read_apart_mixed :
    let text := "\x7b\"Title\":\"\",\"Palette\":\x7b\"Comment\":\x7b\"italic\":1,\"rgb\":[\" 7\",true,255]\x7d," ++
      "\"Terminal\":[null,1e999,0]\x7d\x7d"
    ∃ document, Json.read text.toList = .ok document ∧ document.Distinct ∧ ¬ Overflowing document ∧
      ∃ settings, ofDocument document = .ok settings ∧ settings.palette .comment = some ⟨7, 1, 255, true⟩ ∧
        settings.palette .terminal = some (Palette.defaultSwatch .terminal) ∧ settings.startSymbol = "start" ∧
        settings.title = some ("" : Text) := by
  intro text
  have computed : (Json.read text.toList).toOption.any (fun document =>
      (ofDocument document).toOption.any fun settings : Settings =>
        decide (settings.palette .comment = some ⟨7, 1, 255, true⟩ ∧
          settings.palette .terminal = some (Palette.defaultSwatch .terminal) ∧ settings.startSymbol = "start" ∧
          settings.title = some ("" : Text))) = true := by decide +kernel
  cases read : Json.read text.toList with
  | error fault => rw [read] at computed; cases computed
  | ok document =>
      rw [read] at computed
      obtain ⟨refused, follows⟩ := settings_read_apart (Json.read_distinct read)
      have within : ¬ Overflowing document := by
        intro overflows
        simp only [Except.toOption, Option.any_some, refused overflows, Option.any_none, Bool.false_eq_true] at computed
      obtain ⟨settings, made, -⟩ := follows within
      simp only [Except.toOption, Option.any_some, made, decide_eq_true_eq] at computed
      exact ⟨document, rfl, Json.read_distinct read, within, settings, made, computed⟩

/-- One infinite component is enough for no settings to be read at all. -/
theorem infinite_component_refused :
    let text := "\x7b\"Palette\":\x7b\"Comment\":[1e999,0,0]\x7d\x7d"
    ∃ document, Json.read text.toList = .ok document ∧ ∀ settings, ofDocument document ≠ .ok settings := by
  intro text
  have computed : (Json.read text.toList).toOption.any (fun document => (ofDocument document).toOption.isNone) =
      true := by decide +kernel
  cases read : Json.read text.toList with
  | error fault => rw [read] at computed; cases computed
  | ok document =>
      rw [read] at computed
      refine ⟨document, rfl, fun settings made => ?_⟩
      simp only [Except.toOption, Option.any_some, made, Option.isNone_some, Bool.false_eq_true] at computed

end Documents

section Files
variable {path : Text} {look : Look}

/-- Settings that a file gives have a colour for every style. -/
theorem of_file_full {settings : Settings} (read : ofFile path look = .ok settings) (style : Style) :
    (settings.palette style).isSome := by
  obtain ⟨octets, -, read⟩ := bind_ok_iff.mp read
  obtain ⟨document, parsed, read⟩ := bind_ok_iff.mp read
  rw [map_error_ok_iff] at parsed read
  obtain ⟨palette, given, made⟩ := bind_ok_iff.mp read
  cases made
  rcases palette_of_cases (Json.read_distinct parsed) with ⟨-, refused⟩ | ⟨-, chosen, same, own⟩
  · cases refused.symm.trans given
  · cases same.symm.trans given
    change (palette style).isSome
    rw [own]
    cases ownSwatch (ownColour document style) <;> rfl

/-- A file whose text is a document is refused exactly if a colour in it overflows. -/
theorem of_file_unreadable_iff {fault : Fault} :
    ofFile path look = .error (.unreadable fault) ↔ ∃ octets document, look = .file octets ∧
      Json.read (lenientText octets) = .ok document ∧ Overflowing document := by
  constructor
  · intro refused
    rcases bind_error_iff.mp refused with closed | ⟨octets, opened, unread⟩
    · obtain ⟨cause, -, named⟩ := map_error_error_iff.mp closed
      cases named
    rcases bind_error_iff.mp unread with unparsed | ⟨document, parsed, unfit⟩
    · obtain ⟨cause, -, named⟩ := map_error_error_iff.mp unparsed
      cases named
    rw [map_error_ok_iff] at opened parsed
    obtain ⟨cause, overflown, -⟩ := map_error_error_iff.mp unfit
    exact ⟨octets, document, Look.octets_ok_iff.mp opened, parsed,
      (of_document_refused_iff (Json.read_distinct parsed)).mp overflown⟩
  · rintro ⟨octets, document, rfl, parsed, overflows⟩
    have unfit : ofDocument document = .error fault :=
      (of_document_refused_iff (Json.read_distinct parsed)).mpr overflows
    change ((Json.read (lenientText octets)).mapError _ >>= _) = _
    rw [parsed]
    change (ofDocument document).mapError _ = _
    rw [unfit]
    rfl

end Files

end Settings

end GrammarPage
