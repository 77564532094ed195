import GrammarPage.Proofs.Grammar.Placed
import GrammarPage.Proofs.Session.Enriched

/-!
One enrichment of a held grammar, told in full: what its table has for every name and in which order, and that
nothing else of the session is another behind it. The copy may be the grammar itself.
-/

namespace GrammarPage.Session
variable {session : Session} {number other : Nat} {authority copy : Text} {left right : Grammar}

/-- An enrichment leaves the copy as it was, be it another grammar or the one enriched. -/
theorem copy_unchanged (foundCopy : session.find copy = .ok (other, right))
    (found : session.find authority = .ok (number, left)) :
    (session.update number (left.enrich right)).find copy = .ok (other, right) := by
  by_cases same : other = number
  · subst same
    obtain rfl : left = right :=
      Option.some.inj ((find_iff.mp found).2.symm.trans (find_iff.mp foundCopy).2)
    rw [Grammar.enrich_self, update_held (find_iff.mp found).2, foundCopy]
  · exact find_beside foundCopy same _

/-- What is answered are the links of both as they are behind the step. -/
theorem step_enrich (found : session.find authority = .ok (number, left))
    (foundCopy : session.find copy = .ok (other, right)) :
    session.step (.change (.enrich authority copy)) =
      .ok (session.update number (left.enrich right), .enriched (left.enrich right).links right.links) := by
  have behind := (find_iff.mp (copy_unchanged foundCopy found)).2
  have told : (session.update number (left.enrich right)).linksOf (some other) = right.links := by
    rw [linksOf, Option.bind_some, behind]
    rfl
  rw [← told, step, change, found]
  change (session.find copy >>= _) = _
  rw [foundCopy]
  rfl

/-- Enrichment gives each name of the grammar the link that the copy has for it, if the copy defines the name, and
none otherwise. Other names keep theirs; the old entries that remain keep their order, and new ones come behind
them in the order of the productions. It is what comes of carrying over name by name in place, and nothing but the
links of the one grammar is another behind it. -/
theorem enrichment_exact (found : session.find authority = .ok (number, left))
    (foundCopy : session.find copy = .ok (other, right)) :
    ∃ enriched,
      session.step (.change (.enrich authority copy)) =
        .ok (session.update number enriched, .enriched enriched.links right.links) ∧
      left.names.foldl (visit number other) session = session.update number enriched ∧
      (session.update number enriched).find authority = .ok (number, enriched) ∧
      (session.update number enriched).find copy = .ok (other, right) ∧
      enriched.productions = left.productions ∧ enriched.name = left.name ∧
      (∀ name, enriched.links.get? name =
        if ∃ production ∈ left.productions, production.name = some name then
          if ∃ production ∈ right.productions, production.name = some name then right.links.get? name else none
        else left.links.get? name) ∧
      enriched.links.names = (left.links.names.filter fun name => (enriched.links.get? name).isSome)
        ++ (firstOccurrences left.names).filter fun name =>
          (left.links.get? name).isNone && (enriched.links.get? name).isSome := by
  have inPlace := visits_exact (find_iff.mp found).2 (find_iff.mp foundCopy).2
  refine ⟨left.enrich right, step_enrich found foundCopy, inPlace, find_updated found _,
    copy_unchanged foundCopy found, rfl, rfl, fun name => ?_, left.enrich_names right⟩
  have own : name ∈ left.names ↔ ∃ production ∈ left.productions, production.name = some name := by
    simp [Grammar.names]
  rw [Grammar.enrich_get, Grammar.offered_exact]
  exact if_congr own rfl rfl

theorem enrichment_exact_rearranged :
    let rule (name : Text) : Production := ⟨some name, none, some "documented", false⟩
    let old : LinkTable := ((LinkTable.empty.insert "C" ⟨some "#old", none⟩).insert "Z" ⟨some "#z", none⟩).insert "A"
      ⟨some "#old", none⟩
    let left : Grammar := ⟨[rule "D", rule "A", rule "B", rule "D", rule "C"], none, old⟩
    -- The copy has a link for C without defining it, and none for its own E.
    let offered : LinkTable := ((LinkTable.empty.insert "C" ⟨some "#foreign", none⟩).insert "B"
      ⟨none, some "B"⟩).insert "A" ⟨some "#a", none⟩
    let right : Grammar :=
      ⟨[rule "E", rule "D", rule "B", rule "A"], some "copy", offered.insert "D" ⟨some "#d", none⟩⟩
    let session : Session := ⟨[left, right], [("copy", 1), ("authority", 0)], []⟩
    session.find "authority" = .ok (0, left) ∧ session.find "copy" = .ok (1, right) ∧
      ∃ enriched,
        session.step (.change (.enrich "authority" "copy")) =
          .ok (session.update 0 enriched, .enriched enriched.links right.links) ∧
        (session.update 0 enriched).find "copy" = .ok (1, right) ∧
        enriched.links.names = (["Z", "A", "D", "B"] : List Text) ∧
        enriched.links.get? "A" = some ⟨some "#a", none⟩ ∧ enriched.links.get? "C" = none := by
  intro rule old left offered right session
  have found : session.find "authority" = .ok (0, left) := rfl
  have foundCopy : session.find "copy" = .ok (1, right) := rfl
  obtain ⟨enriched, done, -, -, unchanged, -, -, links, order⟩ := enrichment_exact found foundCopy
  refine ⟨found, foundCopy, enriched, done, unchanged, ?_, ?_, ?_⟩
  · rw [order]
    simp only [links]
    decide
  · rw [links]
    decide
  · rw [links]
    decide

end GrammarPage.Session
