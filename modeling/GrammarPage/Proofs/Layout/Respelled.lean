import GrammarPage.Proofs.Layout.Relaid

/-!
Lines laid out a second time, character by character. The blanks in front of a run are then tokens of their
own. A blank token is joined to the run before it, so these blanks change hands, and nothing else does.
-/

namespace GrammarPage

/-- One token for each character of a text. -/
def lettersOf (text : List CodePoint) (style : Style) : List Token :=
  text.map fun c => ⟨Text.singleton c, style⟩

/-- One token for each character, in the style of its run. -/
def charTokens (line : Line) : List Token :=
  line.flatMap fun run => lettersOf run.text.toList run.mark

/-- The blanks that a text begins with. -/
def blanksInFront (text : Text) : Text := Text.ofList (text.toList.takeWhile Text.isBlank)

def trimmedStart (text : Text) : Text := Text.ofList (Text.trimStart text.toList)

/-- The run with the blanks in front of the next behind it, and so on along the line. -/
def handedOn (run : Run Style) : Line → Line
  | [] => [run]
  | next :: more =>
      ⟨run.text ++ blanksInFront next.text, run.mark⟩ :: handedOn ⟨trimmedStart next.text, next.mark⟩ more

/-- The line in which the blanks in front of each run but the first are at the end of the run before it. -/
def handedBack : Line → Line
  | [] => []
  | run :: rest => handedOn run rest

section Respelled
variable {text : Text} {style : Style} {line : Line}

theorem letters_text (text : List CodePoint) (style : Style) :
    Text.join ((lettersOf text style).map (·.text)) = Text.ofList text := by
  apply Text.to_list_inj.mp
  simp [lettersOf, Text.to_list_join, List.flatMap_map]

/-- The blanks in front of a text apart, its letters are those of the rest. -/
theorem letters_split (text : Text) (style : Style) :
    lettersOf text.toList style =
      lettersOf (blanksInFront text).toList style ++ lettersOf (trimmedStart text).toList style := by
  simp [lettersOf, blanksInFront, trimmedStart, Text.trimStart, ← List.map_append]

theorem letters_in_front {token : Token} (member : token ∈ lettersOf (blanksInFront text).toList style) :
    token.visible = false := by
  obtain ⟨c, inFront, rfl⟩ := List.mem_map.mp member
  rw [blanksInFront, Text.to_list_of_list] at inFront
  simp [Token.visible, blank, List.mem_takeWhile_imp inFront]

theorem trimmed_start_begins (visible : blank text = false) :
    ∃ c rest, (trimmedStart text).toList = c :: rest ∧ Text.isBlank c = false := by
  obtain ⟨c, member, shows⟩ := visible_iff.mp visible
  rw [trimmedStart, Text.to_list_of_list, Text.trimStart]
  cases kept : text.toList.dropWhile Text.isBlank with
  | nil => simp [List.dropWhile_eq_nil_iff.mp kept c member] at shows
  | cons first rest =>
      have begins := List.head?_dropWhile_not Text.isBlank text.toList
      rw [kept] at begins
      exact ⟨first, rest, rfl, begins⟩

/-- Tokens that are blank or have the style of the run before them are joined to it. -/
theorem merged_taken_up {tokens : List Token}
    (joins : ∀ token ∈ tokens, token.visible = true → token.style = style) (rest : List Token) :
    merged (⟨text, style⟩ :: shadedAfter style (tokens ++ rest)) =
      merged (⟨text ++ Text.join (tokens.map (·.text)), style⟩ :: shadedAfter style rest) := by
  induction tokens generalizing text with
  | nil => simp
  | cons token tokens ih =>
      have current : (if token.visible then token.style else style) = style := by
        split
        · next shows => exact joins token List.mem_cons_self shows
        · rfl
      have later := @ih (text ++ token.text) fun other member =>
        joins other (List.mem_cons_of_mem token member)
      rw [List.cons_append, shadedAfter, current, merged_join, later, List.map_cons, Text.join_cons,
        Text.append_assoc]

/-- The letters of a run are joined to it again once its first one stands. -/
theorem merged_letters {c : CodePoint} {letters : List CodePoint} (cut : text.toList = c :: letters)
    (rest : List Token) :
    merged (⟨Text.singleton c, style⟩ :: shadedAfter style (lettersOf letters style ++ rest)) =
      merged (⟨text, style⟩ :: shadedAfter style rest) := by
  have own : ∀ token ∈ lettersOf letters style, token.visible = true → token.style = style := by
    intro token member shows
    obtain ⟨c, -, rfl⟩ := List.mem_map.mp member
    rfl
  have whole : Text.singleton c ++ Text.ofList letters = text := by
    apply Text.to_list_inj.mp
    simp [cut]
  rw [merged_taken_up own, letters_text, whole]

/-- What the letters of a line come to behind a run: each run is begun by its first visible letter, and the
blanks before that are joined to the run under way. -/
theorem merged_char_tokens (shows : ∀ run ∈ line, blank run.text = false)
    (apart : (style :: line.map (·.mark)).IsChain (· ≠ ·)) :
    merged (⟨text, style⟩ :: shadedAfter style (charTokens line)) = handedOn ⟨text, style⟩ line := by
  induction line generalizing text style with
  | nil => rfl
  | cons next more ih =>
      obtain ⟨c, letters, cut, visible⟩ := trimmed_start_begins (shows next List.mem_cons_self)
      have first : Token.visible ⟨Text.singleton c, next.mark⟩ = true := by
        simp [Token.visible, blank, visible]
      have tokens : charTokens (next :: more) = lettersOf (blanksInFront next.text).toList next.mark ++
          (⟨Text.singleton c, next.mark⟩ :: (lettersOf letters next.mark ++ charTokens more)) := by
        rw [charTokens, List.flatMap_cons, letters_split, cut, List.append_assoc]
        rfl
      -- The blanks in front of the run are taken up by the one before; its first visible letter begins it.
      have later := @ih (trimmedStart next.text) next.mark
        (fun run member => shows run (List.mem_cons_of_mem next member)) apart.tail
      rw [tokens, merged_taken_up fun token member seen => by simp [letters_in_front member] at seen,
        letters_text, Text.of_list_to_list, shadedAfter, if_pos first, merged_apart apart.rel,
        merged_letters cut, later, handedOn]

/-- The first visible letter of a text has the style of its run. -/
theorem letters_first (shows : blank text = false) (rest : List Token) :
    ∃ first, (lettersOf text.toList style ++ rest).find? Token.visible = some first ∧ first.style = style := by
  obtain ⟨c, member, visible⟩ := visible_iff.mp shows
  have some : ((lettersOf text.toList style).find? Token.visible).isSome :=
    List.find?_isSome.mpr ⟨⟨Text.singleton c, style⟩, List.mem_map_of_mem member, by
      simp [Token.visible, blank, visible]⟩
  obtain ⟨first, found⟩ := Option.isSome_iff_exists.mp some
  obtain ⟨_, -, rfl⟩ := List.mem_map.mp (List.mem_of_find?_eq_some found)
  exact ⟨_, by rw [List.find?_append, found, Option.some_or], rfl⟩

theorem trimmed_start_ends (text : Text) :
    ∀ c ∈ (trimmedStart text).toList.getLast?, c ∈ text.toList.getLast? := by
  intro c last
  rw [trimmedStart, Text.to_list_of_list, Text.trimStart] at last
  rw [← List.takeWhile_append_dropWhile (p := Text.isBlank) (l := text.toList), List.getLast?_append, last]
  rfl

theorem handed_on_nonempty (run : Run Style) (line : Line) : handedOn run line ≠ [] := by
  cases line <;> exact List.cons_ne_nil _ _

/-- The last run keeps its end. -/
theorem handed_on_ends {run : Run Style}
    (ends : ∀ last ∈ (run :: line).getLast?, ∀ c ∈ last.text.toList.getLast?, Text.isBlank c = false) :
    ∀ last ∈ (handedOn run line).getLast?, ∀ c ∈ last.text.toList.getLast?, Text.isBlank c = false := by
  induction line generalizing run with
  | nil => exact ends
  | cons next more ih =>
      rw [handedOn, List.getLast?_cons_of_ne_nil (handed_on_nonempty _ _)]
      -- The next run has lost blanks in front at most, so it ends as before.
      refine ih fun last found c ending => ?_
      cases more with
      | nil =>
          obtain rfl := Option.mem_some.mp found
          exact ends next rfl c (trimmed_start_ends next.text c ending)
      | cons other rest => exact ends last found c ending

/-- Given back character by character, a line comes out with the blanks between its runs handed back. -/
theorem segment_line_chars (settled : Settled line) : segmentLine (charTokens line) = handedBack line := by
  cases line with
  | nil => rfl
  | cons run rest =>
      have shows := settled.shows run List.mem_cons_self
      have apart : (run.mark :: rest.map (·.mark)).IsChain (· ≠ ·) := (List.isChain_map _).mpr settled.apart
      have nonempty : run.text.toList ≠ [] := by simpa using visible_some shows
      obtain ⟨c, letters, cut⟩ := List.exists_cons_of_ne_nil nonempty
      have tokens : charTokens (run :: rest) =
          ⟨Text.singleton c, run.mark⟩ :: (lettersOf letters run.mark ++ charTokens rest) := by
        rw [charTokens, List.flatMap_cons, cut]
        rfl
      obtain ⟨first, found, style⟩ : ∃ first,
          (charTokens (run :: rest)).find? Token.visible = some first ∧ first.style = run.mark :=
        letters_first shows (charTokens rest)
      rw [tokens] at found ⊢
      rw [segment_line_cons found, style, merged_letters cut,
        merged_char_tokens (fun other member => settled.shows other (List.mem_cons_of_mem run member)) apart,
        trimmed_last_fixed (handed_on_ends settled.ends)]
      rfl

/-- Nothing is handed back where no text begins with a blank. -/
theorem in_front_none_iff : blanksInFront text = "" ↔ text.toList.head?.any Text.isBlank = false := by
  rw [blanksInFront, ← Text.to_list_inj, Text.to_list_of_list]
  cases text.toList with
  | nil => simp
  | cons c rest => cases begins : Text.isBlank c <;> simp [begins]

theorem trimmed_start_fixed (begins : blanksInFront text = "") : trimmedStart text = text := by
  have whole := List.takeWhile_append_dropWhile (p := Text.isBlank) (l := text.toList)
  rw [blanksInFront, ← Text.to_list_inj, Text.to_list_of_list] at begins
  rw [begins] at whole
  exact Text.to_list_inj.mp (by rw [trimmedStart, Text.to_list_of_list]; exact whole)

theorem handed_on_fixed_iff {run : Run Style} :
    handedOn run line = run :: line ↔ ∀ next ∈ line, next.text.toList.head?.any Text.isBlank = false := by
  induction line generalizing run with
  | nil => simp [handedOn]
  | cons next more ih =>
      rw [handedOn, List.cons.injEq, List.forall_mem_cons, ← in_front_none_iff]
      constructor
      · rintro ⟨first, later⟩
        have begins : blanksInFront next.text = "" := by
          have texts := congrArg Run.text first
          simpa using texts
        rw [trimmed_start_fixed begins] at later
        exact ⟨begins, ih.mp later⟩
      · rintro ⟨begins, later⟩
        rw [begins, trimmed_start_fixed begins, Text.append_empty]
        exact ⟨rfl, ih.mpr later⟩

theorem handed_back_fixed_iff :
    handedBack line = line ↔ ∀ run ∈ line.tail, run.text.toList.head?.any Text.isBlank = false := by
  cases line with
  | nil => simp [handedBack]
  | cons run rest => exact handed_on_fixed_iff

end Respelled

theorem handed_back_nil_iff {line : Line} : handedBack line = [] ↔ line = [] := by
  cases line with
  | nil => simp [handedBack]
  | cons run rest => simp [handedBack, handed_on_nonempty]

/-- Laid out again character by character, the lines of a stream that does not begin with an empty line come
out with the blanks in front of each later run handed to the run before it. They are the same lines exactly if
there are no such blanks. -/
theorem lines_respelled (items : List Item) (begins : (linesOf items).head? ≠ some []) :
    linesOf (restream charTokens (linesOf items)) = (linesOf items).map handedBack ∧
      (linesOf (restream charTokens (linesOf items)) = linesOf items ↔
        ∀ line ∈ linesOf items, ∀ run ∈ line.tail, run.text.toList.head?.any Text.isBlank = false) := by
  have each : (linesOf items).map (fun line => segmentLine (charTokens line)) =
      (linesOf items).map handedBack :=
    List.map_congr_left fun line member => segment_line_chars (lines_settled items line member)
  have first : ((linesOf items).map handedBack).head? ≠ some [] := by
    rw [List.head?_map, Ne, Option.map_eq_some_iff]
    rintro ⟨line, found, none⟩
    exact begins (handed_back_nil_iff.mp none ▸ found)
  have relaid : linesOf (restream charTokens (linesOf items)) = (linesOf items).map handedBack := by
    rw [lines_restreamed, each, drop_blank_first_exact, if_neg first]
  refine ⟨relaid, ?_⟩
  calc linesOf (restream charTokens (linesOf items)) = linesOf items
      ↔ (linesOf items).map handedBack = (linesOf items).map id := by rw [relaid, List.map_id]
    _ ↔ ∀ line ∈ linesOf items, handedBack line = line := List.map_inj_left
    _ ↔ ∀ line ∈ linesOf items, ∀ run ∈ line.tail, run.text.toList.head?.any Text.isBlank = false :=
        forall₂_congr fun _ _ => handed_back_fixed_iff

theorem lines_respelled_indented :
    let items : List Item := [.token ⟨"\t", .plainText⟩, .token ⟨"term", .production⟩,
      .token ⟨" )", .plainText⟩, .lineBreak, .lineBreak, .token ⟨"term ", .production⟩,
      .token ⟨";", .plainText⟩]
    (linesOf items).head? ≠ some [] ∧
      linesOf (restream charTokens (linesOf items)) = (linesOf items).map handedBack ∧
      (linesOf (restream charTokens (linesOf items)) = linesOf items ↔
        ∀ line ∈ linesOf items, ∀ run ∈ line.tail, run.text.toList.head?.any Text.isBlank = false) := by
  intro items
  have begins : (linesOf items).head? ≠ some [] := by decide
  exact ⟨begins, lines_respelled items begins⟩

theorem blank_handed_back :
    let items : List Item := [.token ⟨"term", .production⟩, .token ⟨" )", .plainText⟩]
    (linesOf items).head? ≠ some [] ∧ linesOf (restream charTokens (linesOf items)) ≠ linesOf items := by
  decide

end GrammarPage
