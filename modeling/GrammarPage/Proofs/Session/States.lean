import GrammarPage.Session
import GrammarPage.Proofs.Interchange.Mirrored

/-!
The states of a session. A change is told by what it does to the grammars held; a step that fails leaves the
state as it was, and so does a question. The answers to later steps are those that the state reached gives.
-/

namespace GrammarPage.Session
open Interchange

variable {session : Session}

theorem find_iff {name : Text} {number : Nat} {grammar : Grammar} :
    session.find name = .ok (number, grammar) ↔
      session.number? name = some number ∧ session.grammars[number]? = some grammar := by
  unfold find
  cases session.number? name with
  | none => simp
  | some known =>
      simp only [Option.some.injEq]
      cases held : session.grammars[known]? with
      | none =>
          simp only [reduceCtorEq, false_iff, not_and]
          rintro rfl
          simp [held]
      | some _ =>
          simp only [Except.ok.injEq, Prod.mk.injEq]
          constructor
          · rintro ⟨rfl, rfl⟩
            exact ⟨rfl, held⟩
          · rintro ⟨rfl, same⟩
            exact ⟨rfl, Option.some.inj (held.symm.trans same)⟩

section Update
variable {number : Nat}

theorem update_held {grammar : Grammar} (held : session.grammars[number]? = some grammar) :
    session.update number grammar = session := by
  obtain ⟨inside, rfl⟩ := List.getElem?_eq_some_iff.mp held
  rw [update, List.set_getElem_self]

theorem update_update (first last : Grammar) :
    (session.update number first).update number last = session.update number last := by
  simp only [update, List.set_set]

theorem update_get {old : Grammar} (held : session.grammars[number]? = some old) (new : Grammar) :
    (session.update number new).grammars[number]? = some new := by
  obtain ⟨inside, -⟩ := List.getElem?_eq_some_iff.mp held
  exact List.getElem?_set_self inside

theorem update_get_other {other : Nat} (apart : other ≠ number) (new : Grammar) :
    (session.update number new).grammars[other]? = session.grammars[other]? :=
  List.getElem?_set_ne apart.symm

theorem find_updated {name : Text} {old : Grammar} (found : session.find name = .ok (number, old))
    (new : Grammar) : (session.update number new).find name = .ok (number, new) := by
  obtain ⟨named, held⟩ := find_iff.mp found
  exact find_iff.mpr ⟨named, update_get held new⟩

theorem find_beside {name : Text} {other : Nat} {grammar : Grammar}
    (found : session.find name = .ok (other, grammar)) (apart : other ≠ number) (new : Grammar) :
    (session.update number new).find name = .ok (other, grammar) := by
  obtain ⟨named, held⟩ := find_iff.mp found
  exact find_iff.mpr ⟨named, (update_get_other apart new).trans held⟩

end Update

/-- What a change makes of a session, if it succeeds. -/
inductive Changed (session : Session) : Change → Session → Prop where
  | load (name : Text) {document : Json} {grammar : Grammar}
      (read : readGrammar document = .ok grammar) :
      Changed session (.load name document) (session.bind name grammar)
  | setLink {grammar : Text} {number : Nat} {held : Grammar} (name : Text) (link : Link)
      (found : session.find grammar = .ok (number, held)) :
      Changed session (.setLink grammar name link)
        (session.update number { held with links := held.links.insert name link })
  | setName {grammar : Text} {number : Nat} {held : Grammar} (name : Option Text)
      (found : session.find grammar = .ok (number, held)) :
      Changed session (.setName grammar name) (session.update number { held with name })
  | setProductions {grammar source : Text} {number other : Nat} {held origin : Grammar}
      (found : session.find grammar = .ok (number, held))
      (foundSource : session.find source = .ok (other, origin)) :
      Changed session (.setProductions grammar source)
        (session.update number { held with productions := origin.productions })
  | enrich {authority copy : Text} {number other : Nat} {left right : Grammar}
      (found : session.find authority = .ok (number, left))
      (foundCopy : session.find copy = .ok (other, right)) :
      Changed session (.enrich authority copy) (session.update number (left.enrich right))
  | reload (name : Text) {grammar : Text} {number : Nat} {held reloaded : Grammar}
      (found : session.find grammar = .ok (number, held))
      (read : readGrammar held.document = .ok reloaded) :
      Changed session (.reload name grammar) (session.bind name reloaded)
  | makeEmitter (name : Text) {grammar : Option Text} (settings : Settings)
      {held : Option (Nat × Grammar)} (found : grammar.mapM session.find = .ok held) :
      Changed session (.makeEmitter name grammar settings)
        { session with emitters :=
            (name, ⟨.ofGrammar settings (held.map (·.2)), held.map (·.1), []⟩) :: session.emitters }

theorem change_iff {changed : Session} {change : Change} :
    (∃ answer, session.change change = .ok (changed, answer)) ↔ Changed session change changed := by
  constructor
  · rintro ⟨answer, done⟩
    cases change <;> simp only [Session.change, bind_ok_iff, map_error_ok_iff] at done
    case load name document =>
      obtain ⟨grammar, read, same⟩ := done
      cases same
      exact .load name read
    case setLink grammar name link =>
      obtain ⟨⟨number, held⟩, found, same⟩ := done
      cases same
      exact .setLink name link found
    case setName grammar name =>
      obtain ⟨⟨number, held⟩, found, same⟩ := done
      cases same
      exact .setName name found
    case setProductions grammar source =>
      obtain ⟨⟨number, held⟩, found, ⟨other, origin⟩, foundSource, same⟩ := done
      cases same
      exact .setProductions found foundSource
    case enrich authority copy =>
      obtain ⟨⟨number, left⟩, found, ⟨other, right⟩, foundCopy, same⟩ := done
      cases same
      exact .enrich found foundCopy
    case reload name grammar =>
      obtain ⟨⟨number, held⟩, found, reloaded, read, same⟩ := done
      cases same
      exact .reload name found read
    case makeEmitter name grammar settings =>
      obtain ⟨held, found, same⟩ := done
      cases same
      exact .makeEmitter name settings found
  · intro changes
    cases changes <;> simp only [Session.change, bind_ok_iff, map_error_ok_iff]
    case load read => exact ⟨_, _, read, rfl⟩
    case setLink found => exact ⟨_, _, found, rfl⟩
    case setName found => exact ⟨_, _, found, rfl⟩
    case setProductions found foundSource => exact ⟨_, _, found, _, foundSource, rfl⟩
    case enrich found foundCopy => exact ⟨_, _, found, _, foundCopy, rfl⟩
    case reload found read => exact ⟨_, _, found, _, read, rfl⟩
    case makeEmitter found => exact ⟨_, _, found, rfl⟩

/-- The session behind some steps. -/
def after (session : Session) : List Step → Session
  | [] => session
  | next :: rest => (session.behind next).after rest

theorem after_append (session : Session) (front back : List Step) :
    session.after (front ++ back) = (session.after front).after back := by
  induction front generalizing session with
  | nil => rfl
  | cons next rest ih => exact ih (session.behind next)

theorem step_change {change : Change} {changed : Session} (changes : Changed session change changed) :
    ∃ answer, session.step (.change change) = .ok (changed, answer) :=
  change_iff.mpr changes

theorem behind_change {change : Change} {changed : Session} (changes : Changed session change changed) :
    session.behind (.change change) = changed := by
  obtain ⟨answer, done⟩ := change_iff.mpr changes
  rw [behind, done]

/-- Questions leave grammars and their names alone. -/
theorem asked_grammars (question : Question) :
    (session.asked question).grammars = session.grammars ∧ (session.asked question).names = session.names := by
  cases question with
  | emit emitter lines title =>
      rw [asked]
      split <;> exact ⟨rfl, rfl⟩
  | _ => exact ⟨rfl, rfl⟩

/-- A step is a change that succeeds, or leaves grammars and their names alone. -/
theorem behind_step (step : Step) :
    (∃ change, step = .change change ∧ Changed session change (session.behind step)) ∨
      (session.behind step).grammars = session.grammars ∧ (session.behind step).names = session.names := by
  cases step with
  | change change =>
      rw [behind]
      cases done : session.change change with
      | error fault => exact .inr ⟨rfl, rfl⟩
      | ok result => exact .inl ⟨change, rfl, change_iff.mp ⟨result.2, done⟩⟩
  | ask question => exact .inr (asked_grammars question)

end GrammarPage.Session
