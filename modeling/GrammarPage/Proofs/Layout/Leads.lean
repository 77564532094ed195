import Mathlib.Data.List.Chain
import GrammarPage.Proofs.Layout.Segments

/-!
How the runs of a line begin. Only a visible token can begin a run after the first, so the second run of a
line tells which line begins a production.
-/

namespace GrammarPage

/-- A line is read as the beginning of a production if its first run could be a name and its second begins
with a colon. -/
def Opens : Line → Prop
  | first :: second :: _ => first.mark = .production ∧ lead second.text = some (.char ':')
  | _ => False

def Run.front (run : Run Style) : Option CodePoint × Style := (lead run.text, run.mark)

theorem fronts_trimmed_last (line : Line) : (trimmedLast line).map Run.front = line.map Run.front := by
  induction line with
  | nil => rfl
  | cons run rest ih =>
      cases rest with
      | nil => simp [trimmedLast, Run.front, lead_trimmed_end]
      | cons next more =>
          rw [trimmed_last_cons run (List.cons_ne_nil next more), List.map_cons, ih]
          rfl

theorem opens_of_fronts {left right : Line} (same : left.map Run.front = right.map Run.front)
    (opens : Opens left) : Opens right := by
  rcases left with _ | ⟨first, _ | ⟨second, rest⟩⟩
  · exact opens.elim
  · exact opens.elim
  · rcases right with _ | ⟨first', _ | ⟨second', rest'⟩⟩
    · simp at same
    · simp at same
    · simp only [List.map_cons, List.cons.injEq, Run.front, Prod.mk.injEq] at same
      obtain ⟨⟨-, mark⟩, ⟨begins, -⟩, -⟩ := same
      exact ⟨mark ▸ opens.1, begins ▸ opens.2⟩

theorem lead_visible {token : Token} (shows : token.visible = true) (ending : Text) :
    lead (token.text ++ ending) = lead token.text :=
  lead_append (by simpa [Token.visible] using shows) ending

/-- A run is only begun by a visible token, and joining adds to its end. -/
theorem later_run_leads {text : Text} {style : Style} (tokens : List Token) :
    ∀ run ∈ (merged (⟨text, style⟩ :: shadedAfter style tokens)).tail,
      ∃ token ∈ tokens, lead run.text = lead token.text ∧ run.mark = token.style := by
  induction tokens generalizing text style with
  | nil => simp [shadedAfter, merged]
  | cons token rest ih =>
      have grown : ∀ run ∈ (merged (⟨text ++ token.text, style⟩ :: shadedAfter style rest)).tail,
          ∃ other ∈ token :: rest, lead run.text = lead other.text ∧ run.mark = other.style := by
        intro run member
        obtain ⟨other, inRest, same⟩ := ih run member
        exact ⟨other, List.mem_cons_of_mem _ inRest, same⟩
      cases shows : token.visible with
      | false =>
          simp only [shadedAfter, shows, Bool.false_eq_true, ↓reduceIte, merged_join]
          exact grown
      | true =>
          simp only [shadedAfter, shows, ↓reduceIte]
          -- A token of the current style lengthens the run under way and begins none.
          by_cases same : style = token.style
          · rw [← same, merged_join]
            exact grown
          · obtain ⟨ending, more, head⟩ :=
              @merged_head token.text token.style (shadedAfter token.style rest)
            rw [merged_apart same, List.tail_cons]
            intro run member
            rw [head] at member
            rcases List.mem_cons.mp member with rfl | later
            · exact ⟨token, List.mem_cons_self, lead_visible shows ending, rfl⟩
            · obtain ⟨other, inRest, begins⟩ := @ih token.text token.style run (by rwa [head])
              exact ⟨other, List.mem_cons_of_mem _ inRest, begins⟩

theorem merged_distinct (line : Line) :
    (merged line).IsChain fun left right => left.mark ≠ right.mark := by
  induction line with
  | nil => exact .nil
  | cons run rest ih =>
      rw [merged]
      rcases pieces : merged rest with _ | ⟨next, more⟩ <;> rw [pieces] at ih
      · exact .singleton run
      · by_cases same : run.mark = next.mark
        · simpa [same, List.isChain_cons] using ih
        · simpa [same] using ih

/-- A segment in which no later token but a name begins with a colon is no beginning of a production. -/
theorem segment_line_closed {segment : List Token}
    (ordinary : ∀ token ∈ segment.tail, token.style ≠ .production → lead token.text ≠ some (.char ':')) :
    ¬ Opens (segmentLine segment) := by
  intro opens
  cases segment with
  | nil => exact opens
  | cons token rest =>
      cases found : (token :: rest).find? Token.visible with
      | none =>
          rw [segment_line_blank found] at opens
          exact opens
      | some first =>
          rw [segment_line_cons found] at opens
          have early := opens_of_fronts (fronts_trimmed_last _) opens
          have later := @later_run_leads token.text first.style rest
          have distinct := merged_distinct (⟨token.text, first.style⟩ :: shadedAfter first.style rest)
          rcases pieces : merged (⟨token.text, first.style⟩ :: shadedAfter first.style rest)
            with _ | ⟨run, _ | ⟨second, more⟩⟩ <;> rw [pieces] at early later distinct
          · exact early
          · exact early
          · obtain ⟨other, member, begins, mark⟩ := later second List.mem_cons_self
            -- Neighbours differ in style, so the second run was not begun by a name.
            have apart : run.mark ≠ second.mark := distinct.rel
            refine ordinary other member (fun name => apart ?_) (begins ▸ early.2)
            rw [early.1, mark, name]

theorem segment_line_plain {token : Token} (shows : token.visible = true)
    (other : token.style ≠ .production) (rest : List Token) :
    ¬ Opens (segmentLine (token :: rest)) := by
  intro opens
  have found : (token :: rest).find? Token.visible = some token := by simp [shows]
  rw [segment_line_cons found] at opens
  have early := opens_of_fronts (fronts_trimmed_last _) opens
  obtain ⟨ending, more, head⟩ := @merged_head token.text token.style (shadedAfter token.style rest)
  rw [head] at early
  rcases more with _ | ⟨second, more⟩
  · exact early
  · exact other early.1

/-- An empty token in front changes nothing. -/
theorem segment_line_empty_cons (style : Style) {token : Token} (shows : token.visible = true)
    (rest : List Token) : segmentLine (⟨"", style⟩ :: token :: rest) = segmentLine (token :: rest) := by
  have empty : Token.visible ⟨"", style⟩ = false := rfl
  have found : (token :: rest).find? Token.visible = some token := by simp [shows]
  have skipped : (⟨"", style⟩ :: token :: rest).find? Token.visible = some token := by
    simp [empty, shows]
  rw [segment_line_cons found, segment_line_cons skipped, shadedAfter, if_pos shows, merged_join,
    Text.empty_append]

/-- The colon after a name ends the run of the name and begins the next. -/
theorem segment_line_opening {name : Text} (shows : blank name = false) (rest : List Token) :
    ∃ second more, segmentLine (⟨name, .production⟩ :: ⟨":", .plainText⟩ :: rest) =
      ⟨name, .production⟩ :: second :: more ∧ lead second.text = some (.char ':') := by
  have found : (⟨name, .production⟩ :: ⟨":", .plainText⟩ :: rest : List Token).find? Token.visible =
      some ⟨name, .production⟩ := by simp [Token.visible, shows]
  have colon : Token.visible ⟨":", .plainText⟩ = true := by decide
  obtain ⟨ending, more, head⟩ := @merged_head ":" .plainText (shadedAfter .plainText rest)
  have apart : Style.production ≠ .plainText := by decide
  have line : segmentLine (⟨name, .production⟩ :: ⟨":", .plainText⟩ :: rest) =
      ⟨name, .production⟩ :: trimmedLast (⟨":" ++ ending, .plainText⟩ :: more) := by
    rw [segment_line_cons found, shadedAfter, if_pos colon, merged_apart apart, head,
      trimmed_last_cons _ (List.cons_ne_nil _ _)]
  have fronts := fronts_trimmed_last (⟨":" ++ ending, .plainText⟩ :: more)
  rcases trimmed : trimmedLast (⟨":" ++ ending, .plainText⟩ :: more) with _ | ⟨second, others⟩
  · simp [trimmed] at fronts
  · rw [trimmed, List.map_cons, List.map_cons, List.cons.injEq] at fronts
    refine ⟨second, others, by rw [line, trimmed], ?_⟩
    calc lead second.text = lead (":" ++ ending) := congrArg Prod.fst fronts.1
      _ = lead ":" := lead_visible colon ending
      _ = some (.char ':') := by decide

end GrammarPage
