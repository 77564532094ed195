import GrammarPage.Proofs.Grammar.Transplanted
import GrammarPage.Proofs.Session.States

/-!
Enrichment of held grammars, from one copy after another. The last copy decides, since a run of enrichments
touches the links of the grammar's own names and nothing else, and each enrichment settles all of them. Name
by name in place comes to the same, also where a grammar reads from the table that it is writing.
-/

namespace GrammarPage

namespace Grammar

/-- Nothing differs but links of the grammar's own names. -/
def Relinked (before after : Grammar) : Prop :=
  after.productions = before.productions ∧ after.name = before.name ∧
    ∀ name, name ∉ before.names → after.links.get? name = before.links.get? name

theorem relinked_refl (grammar : Grammar) : grammar.Relinked grammar := ⟨rfl, rfl, fun _ _ => rfl⟩

theorem relinked_names {before after : Grammar} (relinked : before.Relinked after) :
    after.names = before.names := by
  rw [names, names, relinked.1]

theorem relinked_trans {before middle after : Grammar} (first : before.Relinked middle)
    (second : middle.Relinked after) : before.Relinked after := by
  refine ⟨second.1.trans first.1, second.2.1.trans first.2.1, fun name foreign => ?_⟩
  rw [second.2.2 name (by rwa [relinked_names first]), first.2.2 name foreign]

theorem relinked_enrich (grammar copy : Grammar) : grammar.Relinked (grammar.enrich copy) := by
  refine ⟨rfl, rfl, fun name foreign => ?_⟩
  rw [enrich_get, if_neg foreign]

/-- Enrichment leaves no trace of other links that the names had before. -/
theorem enrich_relinked {before after : Grammar} (relinked : before.Relinked after) (copy : Grammar)
    (name : Text) : (after.enrich copy).links.get? name = (before.enrich copy).links.get? name := by
  rw [enrich_get, enrich_get, relinked_names relinked]
  split
  · rfl
  · exact relinked.2.2 name ‹_›

end Grammar

namespace Session
variable {session : Session} {number : Nat}

section InPlace

/-- One name carried over in place. What the copy offers is looked up in the state that earlier visits have
left, be the copy the same grammar or another. -/
def visit (number other : Nat) (session : Session) (name : Text) : Session :=
  match session.grammars[number]?, session.grammars[other]? with
  | some authority, some copy =>
      session.update number { authority with links := copy.transplant authority.links name }
  | _, _ => session

theorem visit_own {grammar : Grammar} (held : session.grammars[number]? = some grammar) {name : Text}
    (member : name ∈ grammar.names) : visit number number session name = session := by
  have settled : grammar.transplant grammar.links name = grammar.links :=
    Grammar.transplant_settled (Grammar.offered_own member)
  rw [visit, held]
  simp only [settled]
  exact update_held held

theorem visits_own {grammar : Grammar} (held : session.grammars[number]? = some grammar)
    {names : List Text} (members : names ⊆ grammar.names) :
    names.foldl (visit number number) session = session := by
  induction names with
  | nil => rfl
  | cons name rest ih =>
      rw [List.foldl_cons, visit_own held (members List.mem_cons_self)]
      exact ih fun later member => members (List.mem_cons_of_mem name member)

theorem visits_apart {other : Nat} (apart : other ≠ number) {authority copy : Grammar}
    (held : session.grammars[number]? = some authority) (heldCopy : session.grammars[other]? = some copy)
    (names : List Text) :
    names.foldl (visit number other) session =
      session.update number { authority with links := names.foldl copy.transplant authority.links } := by
  induction names generalizing session authority with
  | nil => exact (update_held held).symm
  | cons name rest ih =>
      let visited : Grammar := { authority with links := copy.transplant authority.links name }
      have first : visit number other session name = session.update number visited := by
        rw [visit, held, heldCopy]
      have later := ih (update_get held visited) ((update_get_other apart visited).trans heldCopy)
      rw [List.foldl_cons, List.foldl_cons, first, later, update_update]

/-- Carried over name by name, links come to what enrichment makes of the state at the start. -/
theorem visits_exact {other : Nat} {authority copy : Grammar}
    (held : session.grammars[number]? = some authority)
    (heldCopy : session.grammars[other]? = some copy) :
    authority.names.foldl (visit number other) session =
      session.update number (authority.enrich copy) := by
  by_cases same : other = number
  · subst same
    obtain rfl : authority = copy := Option.some.inj (held.symm.trans heldCopy)
    rw [visits_own held (List.Subset.refl _), Grammar.enrich_self, update_held held]
  · exact visits_apart same held heldCopy authority.names

end InPlace

/-- The name of a held grammar other than that of the number. -/
def NamesOther (session : Session) (number : Nat) (name : Text) : Prop :=
  ∃ other grammar, session.find name = .ok (other, grammar) ∧ other ≠ number

theorem names_other_update {name : Text} (other : session.NamesOther number name) (new : Grammar) :
    (session.update number new).NamesOther number name := by
  obtain ⟨found, grammar, known, apart⟩ := other
  exact ⟨found, grammar, find_beside known apart new, apart⟩

theorem find_names_other {name : Text} (other : session.NamesOther number name) (new : Grammar) :
    (session.update number new).find name = session.find name := by
  obtain ⟨found, grammar, known, apart⟩ := other
  rw [known, find_beside known apart]

def enrichments (authority : Text) (copies : List Text) : List Step :=
  copies.map fun copy => .change (.enrich authority copy)

variable {authority : Text} {start : Grammar} (held : session.find authority = .ok (number, start))
include held

/-- No enrichment of a run fails, and only the grammar enriched is another behind it. -/
theorem enrichments_exact {copies : List Text}
    (others : ∀ copy ∈ copies, session.NamesOther number copy) :
    (∀ answer ∈ session.run (enrichments authority copies), ∃ given, answer = .ok given) ∧
      ∃ enriched, session.after (enrichments authority copies) = session.update number enriched ∧
        start.Relinked enriched := by
  induction copies generalizing session start with
  | nil =>
      constructor
      · simp [enrichments, run]
      · exact ⟨start, (update_held (find_iff.mp held).2).symm, start.relinked_refl⟩
  | cons copy rest ih =>
      obtain ⟨other, found, foundCopy, -⟩ := others copy List.mem_cons_self
      obtain ⟨answer, done⟩ := step_change (.enrich held foundCopy)
      have behind := behind_change (.enrich held foundCopy)
      have later : ∀ copy ∈ rest, (session.update number (start.enrich found)).NamesOther number copy :=
        fun copy' member => names_other_update (others copy' (List.mem_cons_of_mem copy member)) _
      obtain ⟨answered, enriched, reached, relinked⟩ := ih (find_updated held (start.enrich found)) later
      constructor
      · rw [enrichments, List.map_cons, run, done, behind, List.forall_mem_cons]
        exact ⟨⟨answer, rfl⟩, answered⟩
      · refine ⟨enriched, ?_, Grammar.relinked_trans (start.relinked_enrich found) relinked⟩
        rw [enrichments, List.map_cons, after, behind]
        exact reached.trans (update_update _ _)

-- The copy of the last enrichment is found as it was at the start, since no earlier one touches it.
theorem enrichments_last {copies : List Text} {last : Text}
    (others : ∀ copy ∈ copies, session.NamesOther number copy) {other : Nat} {found : Grammar}
    (foundLast : session.find last = .ok (other, found)) (apart : other ≠ number) :
    ∃ middle, start.Relinked middle ∧
      session.after (enrichments authority (copies ++ [last])) =
        session.update number (middle.enrich found) := by
  obtain ⟨-, middle, reached, relinked⟩ := enrichments_exact held others
  have behind := behind_change (.enrich (find_updated held middle) (find_beside foundLast apart middle))
  refine ⟨middle, relinked, ?_⟩
  rw [enrichments, List.map_append, after_append, ← enrichments, reached, List.map_singleton, after, behind,
    update_update]
  rfl

/-- A run of enrichments ends where the last one alone would have ended, with nothing else changed; the last
one again changes nothing at all, and neither does a grammar enriched from itself. Each of them is what comes
of carrying over name by name in place. -/
theorem last_enrichment_wins :
    (∀ (copies : List Text) (last : Text),
      (∀ copy ∈ copies ++ [last], session.NamesOther number copy) →
      let steps := enrichments authority (copies ++ [last])
      let final := session.after steps
      (∀ answer ∈ session.run steps, ∃ given, answer = .ok given) ∧
      (∃ other found enriched, session.find last = .ok (other, found) ∧
        final = session.update number enriched ∧
        enriched.productions = start.productions ∧ enriched.name = start.name ∧
        ∀ name, enriched.links.get? name = (start.enrich found).links.get? name) ∧
      (∀ copy ∈ copies ++ [last], final.find copy = session.find copy) ∧
      ∃ answer, final.step (.change (.enrich authority last)) = .ok (final, answer)) ∧
    (∃ answer, session.step (.change (.enrich authority authority)) = .ok (session, answer)) ∧
    ∀ copy other found, session.find copy = .ok (other, found) →
      ∃ answer, session.step (.change (.enrich authority copy)) =
        .ok (start.names.foldl (visit number other) session, answer) := by
  refine ⟨fun copies last others => ?_, ?_, fun copy other found foundCopy => ?_⟩
  · obtain ⟨other, found, foundLast, apart⟩ := others last (by simp)
    obtain ⟨middle, relinked, final⟩ := enrichments_last held
      (fun copy member => others copy (List.mem_append_left [last] member)) foundLast apart
    have again := step_change (.enrich (find_updated held (middle.enrich found))
      (find_beside foundLast apart (middle.enrich found)))
    rw [Grammar.enrich_again, update_update] at again
    simp only [final]
    exact ⟨(enrichments_exact held others).1,
      ⟨other, found, middle.enrich found, foundLast, rfl, relinked.1, relinked.2.1,
        Grammar.enrich_relinked relinked found⟩,
      fun copy member => find_names_other (others copy member) _, again⟩
  · have own := step_change (.enrich held held)
    rwa [Grammar.enrich_self, update_held (find_iff.mp held).2] at own
  · rw [visits_exact (find_iff.mp held).2 (find_iff.mp foundCopy).2]
    exact step_change (.enrich held foundCopy)

omit held

theorem last_enrichment_wins_over_repeated :
    let rule (name : Text) : Production := ⟨some name, none, some "documented", false⟩
    let old : LinkTable := (LinkTable.empty.insert "Z" ⟨some "#z", none⟩).insert "A" ⟨some "#old", none⟩
    let start : Grammar := ⟨[rule "A", rule "B", rule "A"], none, old⟩
    let first : Grammar := ⟨[rule "A"], none, LinkTable.empty.insert "A" ⟨some "#first", none⟩⟩
    -- The last copy has a link for A without defining A.
    let offered : LinkTable :=
      (LinkTable.empty.insert "A" ⟨some "#foreign", none⟩).insert "B" ⟨some "#b", some "B"⟩
    let last : Grammar := ⟨[rule "B"], some "last", offered⟩
    let session : Session :=
      ⟨[start, first, last], [("last", 2), ("first", 1), ("start", 0)], []⟩
    session.find "start" = .ok (0, start) ∧
      (∀ copy ∈ [("last" : Text), "first"] ++ [("last" : Text)], session.NamesOther 0 copy) ∧
      ∃ enriched,
        session.after (enrichments "start" ([("last" : Text), "first"] ++ [("last" : Text)])) =
          session.update 0 enriched ∧
        enriched.links.get? "A" = none ∧ enriched.links.get? "B" = some ⟨some "#b", some "B"⟩ ∧
        enriched.links.get? "Z" = some ⟨some "#z", none⟩ := by
  intro rule old start first offered last session
  have held : session.find "start" = .ok (0, start) := rfl
  have known : session.find "last" = .ok (2, last) := rfl
  have others : ∀ copy ∈ [("last" : Text), "first"] ++ [("last" : Text)], session.NamesOther 0 copy := by
    have namesLast : session.NamesOther 0 "last" := ⟨2, last, known, by decide⟩
    have namesFirst : session.NamesOther 0 "first" := ⟨1, first, rfl, by decide⟩
    simp [namesLast, namesFirst]
  obtain ⟨-, ⟨other, found, enriched, foundLast, reached, -, -, links⟩, -⟩ :=
    (last_enrichment_wins held).1 ["last", "first"] "last" others
  obtain ⟨rfl, rfl⟩ : 2 = other ∧ last = found := by
    simpa using known.symm.trans foundLast
  have table : ∀ name, enriched.links.get? name = (start.enrich last).links.get? name := links
  refine ⟨held, others, enriched, reached, ?_, ?_, ?_⟩
  · rw [table]
    rfl
  · rw [table]
    rfl
  · rw [table]
    rfl

end Session

end GrammarPage
