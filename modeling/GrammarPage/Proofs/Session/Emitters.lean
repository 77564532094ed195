import GrammarPage.Proofs.Page.Emission
import GrammarPage.Proofs.Session.States

/-!
Emitters over sessions. Whatever a session goes through, an emitter keeps its settings, the names that were
defined when it was made, and the grammar that it was made for. What it keeps of its last page, also of one that
it failed to make, has no part in the next.
-/

namespace GrammarPage.Session

variable {session : Session} {name : Text} {emitter : Emitter} {number : Option Nat}

/-- The emitter of a name and the number of its grammar, whatever it keeps of its last page. -/
def HoldsEmitter (session : Session) (name : Text) (emitter : Emitter) (number : Option Nat) : Prop :=
  ∃ anchored, session.findEmitter name = .ok ⟨emitter, number, anchored⟩

theorem find_emitter_cons (other : Text) (held : HeldEmitter) :
    ({ session with emitters := (other, held) :: session.emitters } : Session).findEmitter name =
      if other = name then .ok held else session.findEmitter name := by
  by_cases same : other = name
  · simp [findEmitter, same]
  · simp [findEmitter, same]

theorem holds_changed {change : Change} {changed : Session} (changes : Changed session change changed)
    (kept : ∀ source settings, change ≠ .makeEmitter name source settings)
    (held : session.HoldsEmitter name emitter number) : changed.HoldsEmitter name emitter number := by
  cases changes with
  | makeEmitter other settings found =>
      obtain ⟨anchored, known⟩ := held
      have apart : other ≠ name := by
        rintro rfl
        exact kept _ _ rfl
      exact ⟨anchored, by rw [find_emitter_cons, if_neg apart, known]⟩
  | _ => exact held

/-- A question that makes a page changes what the emitter keeps, and nothing else about it. -/
theorem holds_asked (question : Question) (held : session.HoldsEmitter name emitter number) :
    (session.asked question).HoldsEmitter name emitter number := by
  cases question with
  | emit other lines title =>
      obtain ⟨anchored, known⟩ := held
      rw [asked]
      split
      · rename_i asker given found _
        by_cases same : other = name
        · subst same
          cases found.symm.trans known
          exact ⟨_, (find_emitter_cons other _).trans (if_pos rfl)⟩
        · exact ⟨anchored, by rw [find_emitter_cons, if_neg same, known]⟩
      · exact ⟨anchored, known⟩
  | _ => exact held

theorem holds_behind {step : Step} (kept : ∀ source settings, step ≠ .change (.makeEmitter name source settings))
    (held : session.HoldsEmitter name emitter number) : (session.behind step).HoldsEmitter name emitter number := by
  cases step with
  | change change =>
      rw [behind]
      cases done : session.change change with
      | error fault => exact held
      | ok result =>
          have others : ∀ source settings, change ≠ .makeEmitter name source settings := by
            rintro source settings rfl
            exact kept source settings rfl
          exact holds_changed (change_iff.mp ⟨result.2, done⟩) others held
  | ask question => exact holds_asked question held

/-- No step lets go of a grammar. -/
theorem grammars_behind (step : Step) : session.grammars.length ≤ (session.behind step).grammars.length := by
  rcases behind_step step with ⟨change, -, changes⟩ | ⟨same, -⟩
  · generalize session.behind step = changed at changes
    cases changes <;> simp [Session.bind, update]
  · rw [same]

/-- What can happen to a session: one of its steps, or any other change to a grammar that it holds. -/
inductive Event where
  | step (step : Step)
  | rewrite (number : Nat) (grammar : Grammar)

def happened (session : Session) : Event → Session
  | .step step => session.behind step
  | .rewrite number grammar => session.update number grammar

def history (session : Session) (events : List Event) : Session := events.foldl happened session

/-- No other emitter is given the name. -/
def KeepsEmitter (name : Text) (events : List Event) : Prop :=
  ∀ source settings, .step (.change (.makeEmitter name source settings)) ∉ events

theorem holds_history {events : List Event} (kept : KeepsEmitter name events)
    (held : session.HoldsEmitter name emitter number) :
    (session.history events).HoldsEmitter name emitter number := by
  induction events generalizing session with
  | nil => exact held
  | cons event rest ih =>
      have later : KeepsEmitter name rest := fun source settings member =>
        kept source settings (List.mem_cons_of_mem event member)
      refine @ih (session.happened event) later ?_
      cases event with
      | step step =>
          refine holds_behind (fun source settings same => kept source settings ?_) held
          rw [same]
          exact List.mem_cons_self
      | rewrite number grammar => exact held

theorem grammars_history (events : List Event) :
    session.grammars.length ≤ (session.history events).grammars.length := by
  induction events generalizing session with
  | nil => exact Nat.le_refl _
  | cons event rest ih =>
      refine Nat.le_trans ?_ (@ih (session.happened event))
      cases event with
      | step step => exact grammars_behind step
      | rewrite number grammar => simp [happened, update]

theorem links_of_held {session : Session} {number : Nat} {grammar : Grammar}
    (held : session.grammars[number]? = some grammar) : session.linksOf (some number) = grammar.links := by
  simp [linksOf, held]

theorem answer_emit (held : session.HoldsEmitter name emitter number) {lines : Lines}
    {given : List (List (Run Mark))} (known : session.linesFor lines = .ok given) (title : Option Text) :
    session.answer (.emit name lines title) =
      Answer.page <$> (emitter.page (session.linksOf number) given title).mapError .style := by
  obtain ⟨anchored, found⟩ := held
  have made := emitter.emit_page (session.linksOf number) given title anchored
  rw [answer, found]
  let held : HeldEmitter := ⟨emitter, number, anchored⟩
  change (do
    let lines ← session.linesFor lines
    return Answer.page (← (held.emit (session.linksOf number) lines title).1.mapError Fault.style)) = _
  rw [known, ← made]
  rfl

theorem holds_made {made : Session} {source : Option Text} {settings : Settings}
    (changes : Changed session (.makeEmitter name source settings) made) :
    ∃ held : Option (Nat × Grammar), source.mapM session.find = .ok held ∧ made.grammars = session.grammars ∧
      made.HoldsEmitter name (.ofGrammar settings (held.map (·.2))) (held.map (·.1)) := by
  cases changes with
  | makeEmitter name settings found =>
      refine ⟨_, found, rfl, [], ?_⟩
      rw [find_emitter_cons, if_pos rfl]

theorem held_source {source : Option Text} {number : Nat} {grammar : Grammar}
    (found : source.mapM session.find = .ok (some (number, grammar))) :
    session.grammars[number]? = some grammar := by
  cases source with
  | none => cases found
  | some name =>
      obtain ⟨held, known, same⟩ := map_ok_iff.mp found
      cases same
      exact (find_iff.mp known).2

/-- Whatever happened, an emitter makes the page that a fresh one would make, with the names that were defined when
it was made and the links that its grammar has by then. -/
theorem emitter_forgets {made : Session} {source : Option Text} {settings : Settings} {answer : Answer}
    {events : List Event} (making : session.step (.change (.makeEmitter name source settings)) = .ok (made, answer))
    (kept : KeepsEmitter name events) :
    ∃ held : Option (Nat × Grammar), source.mapM session.find = .ok held ∧
      let current := made.history events
      let emitter := Emitter.ofGrammar settings (held.map (·.2))
      let links := current.linksOf (held.map (·.1))
      (∀ number grammar, held = some (number, grammar) →
        ∃ now, current.grammars[number]? = some now ∧ links = now.links) ∧
      ∀ lines given title, current.linesFor lines = .ok given →
        current.answer (.emit name lines title) =
          Answer.page <$> ((HeldEmitter.mk emitter (held.map (·.1)) []).emit links given title).1.mapError .style ∧
        ((HeldEmitter.mk emitter (held.map (·.1)) []).emit links given title).1 = emitter.page links given title ∧
        HangsOnIds fun links => emitter.page links given title := by
  obtain ⟨held, found, grammars, stays⟩ := holds_made (change_iff.mp ⟨answer, making⟩)
  have stays := holds_history kept stays
  refine ⟨held, found, ?_, fun lines given title known => ⟨?_, ?_, Emitter.hangs_on_ids given title⟩⟩
  · rintro number grammar rfl
    obtain ⟨inside, -⟩ := List.getElem?_eq_some_iff.mp (held_source found)
    rw [← grammars] at inside
    have reached : number < (made.history events).grammars.length :=
      Nat.lt_of_lt_of_le inside (grammars_history events)
    exact ⟨_, List.getElem?_eq_getElem reached, links_of_held (List.getElem?_eq_getElem reached)⟩
  · rw [answer_emit stays known title]
    exact congrArg _ (congrArg _ (Emitter.emit_page _ _ given title []).symm)
  · exact Emitter.emit_page _ _ given title []

/-- A page that fails in its second line leaves the definition in its first one anchored, and yet the next page has
that definition, with the link that was set in between. By then the grammar's name leads elsewhere, and the grammar
itself has lost its production. -/
theorem emitter_forgets_failed :
    let rule : Production := ⟨some "A", some (.leaf .terminal "a" .bare), none, false⟩
    let session : Session := ⟨[⟨[rule], none, .empty⟩], [("g", 0)], []⟩
    let emitter := Emitter.ofGrammar .default (some ⟨[rule], none, .empty⟩)
    let made : Session := { session with emitters := [("e", ⟨emitter, some 0, []⟩)] }
    let opening : List (Run Mark) := [⟨"A", .style .production⟩, ⟨":", .style .plainText⟩]
    let failing : Event := .step (.ask (.emit "e" (.given [opening, [⟨"?", .other .null⟩]]) none))
    let events := [failing, .rewrite 0 ⟨[], none, .empty⟩, .step (.change (.setLink "g" "A" ⟨some "#a", none⟩)),
      .step (.change (.load "g" (.object [("productions", .list [])])))]
    session.step (.change (.makeEmitter "e" (some "g") .default)) = .ok (made, .done) ∧
      KeepsEmitter "e" events ∧ (made.happened failing).findEmitter "e" = .ok ⟨emitter, some 0, ["A"]⟩ ∧
      ∃ plain colon : Swatch, (made.history events).answer (.emit "e" (.given [opening]) none) =
        .ok (.page ⟨"Grammar", [[⟨.outward "A" "#a" "A", plain, "A"⟩, ⟨.plain, colon, ":"⟩]]⟩) := by
  intro rule session emitter made opening failing events
  have making : session.step (.change (.makeEmitter "e" (some "g") .default)) = .ok (made, .done) := rfl
  have kept : KeepsEmitter "e" events := by
    simp [KeepsEmitter, events, failing]
  obtain ⟨held, found, -, answers⟩ := emitter_forgets making kept
  cases found
  obtain ⟨answered, same, -⟩ := answers (.given [opening]) [opening] none rfl
  refine ⟨making, kept, rfl, ?_⟩
  rw [answered, same]
  exact ⟨_, _, rfl⟩

end GrammarPage.Session
