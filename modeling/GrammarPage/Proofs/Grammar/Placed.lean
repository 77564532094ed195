import GrammarPage.Proofs.Grammar.Differences
import GrammarPage.Proofs.Grammar.Transplanted

/-!
The places of names in a table of links. Setting a name that the table has keeps its place, and a new name comes
last. So enrichment leaves the names that still have a link where they were, and puts the new ones behind them in
the order in which the grammar first bears them.
-/

namespace GrammarPage

namespace LinkTable

/-- The names that have an entry, in the order of insertion. -/
def names (table : LinkTable) : List Text := table.entries.map Prod.fst

theorem find_none_iff {entries : List (Text × Link)} {name : Text} :
    find? name entries = none ↔ name ∉ entries.map Prod.fst := by
  induction entries with
  | nil => simp [find?]
  | cons entry rest ih =>
      obtain ⟨key, link⟩ := entry
      by_cases here : key = name
      · simp [find?, here]
      · simp [find?, here, Ne.symm here, ih]

theorem get_none_iff {table : LinkTable} {name : Text} : table.get? name = none ↔ name ∉ table.names :=
  find_none_iff

theorem names_put (name : Text) (link : Link) (entries : List (Text × Link)) :
    (put name link entries).map Prod.fst =
      entries.map Prod.fst ++ if name ∈ entries.map Prod.fst then [] else [name] := by
  induction entries with
  | nil => rfl
  | cons entry rest ih =>
      obtain ⟨key, old⟩ := entry
      by_cases here : key = name
      · simp [put, here]
      · have elsewhere : name ∈ ((key, old) :: rest).map Prod.fst ↔ name ∈ rest.map Prod.fst := by
          simp [Ne.symm here]
        rw [put, if_neg here, List.map_cons, ih, List.map_cons, List.cons_append]
        simp only [← elsewhere, List.map_cons]

theorem names_insert (table : LinkTable) (name : Text) (link : Link) :
    (table.insert name link).names = table.names ++ if name ∈ table.names then [] else [name] :=
  names_put name link table.entries

theorem names_erase (table : LinkTable) (name : Text) :
    (table.erase name).names = table.names.filter (· ≠ name) := by
  rw [names, names, erase, List.filter_map]
  rfl

end LinkTable

namespace Grammar

/-- The copy has a link to give for a name. -/
def offers (copy : Grammar) (name : Text) : Bool := (copy.offeredLink? name).isSome

/-- One name visited: its entry goes if the copy has none to give, and comes last if it is new. -/
theorem transplant_names (copy : Grammar) (table : LinkTable) (name : Text) :
    (copy.transplant table name).names =
      (table.names.filter fun other => other ≠ name || copy.offers other)
        ++ if name ∉ table.names ∧ copy.offers name = true then [name] else [] := by
  rw [transplant]
  cases offered : copy.offeredLink? name with
  | none =>
      have never : copy.offers name = false := by rw [offers, offered]; rfl
      have same : ∀ other ∈ table.names,
          decide (other ≠ name) = (decide (other ≠ name) || copy.offers other) := by
        intro other _
        by_cases here : other = name <;> simp [here, never]
      rw [LinkTable.names_erase, List.filter_congr same]
      simp [never]
  | some link =>
      have given : copy.offers name = true := by rw [offers, offered]; rfl
      have all : ∀ other ∈ table.names, (decide (other ≠ name) || copy.offers other) = true := by
        intro other _
        by_cases here : other = name <;> simp [here, given]
      rw [LinkTable.names_insert, List.filter_eq_self.mpr all]
      by_cases old : name ∈ table.names <;> simp [old, given]

/-- The names of a table behind a run of visits: what remains of the old ones, and then the new ones. -/
theorem transplants_names (copy : Grammar) (names : List Text) (table : LinkTable) :
    (names.foldl copy.transplant table).names =
      (table.names.filter fun name => !names.contains name || copy.offers name)
        ++ (firstOccurrences names).filter fun name => !table.names.contains name && copy.offers name := by
  -- A table grows at its end, so the induction takes the visits from there.
  induction names using List.reverseRecOn with
  | nil => simp [firstOccurrences]
  | append_singleton front name ih =>
      have kept : ∀ other ∈ table.names,
          ((decide (other ≠ name) || copy.offers other) && (!front.contains other || copy.offers other)) =
            (!(front ++ [name]).contains other || copy.offers other) := by
        intro other _
        by_cases here : other = name <;> cases copy.offers other <;> simp [here]
      have added : ∀ other ∈ firstOccurrences front,
          ((decide (other ≠ name) || copy.offers other) && (!table.names.contains other && copy.offers other)) =
            (!table.names.contains other && copy.offers other) := by
        intro other _
        cases copy.offers other <;> simp
      rw [List.foldl_append, List.foldl_cons, List.foldl_nil, transplant_names, ih, List.filter_append,
        List.filter_filter, List.filter_filter, List.filter_congr kept, List.filter_congr added,
        first_occurrences_snoc, List.filter_append, List.append_assoc]
      congr 2
      cases given : copy.offers name with
      | false => by_cases visited : name ∈ front <;> simp [visited, given]
      | true =>
          -- A name that has an entry had one at the start or was given one by an earlier visit.
          by_cases visited : name ∈ front
          · by_cases old : name ∈ table.names <;> simp [visited, old, given, mem_first_occurrences]
          · by_cases old : name ∈ table.names <;> simp [visited, old, given, mem_first_occurrences]

/-- Names that still have an entry stand where they stood, and new ones behind them in the order in which the
grammar first bears them. -/
theorem enrich_names (authority copy : Grammar) :
    let after := (authority.enrich copy).links
    after.names = (authority.links.names.filter fun name => (after.get? name).isSome)
      ++ authority.defined.filter fun name => (authority.links.get? name).isNone && (after.get? name).isSome := by
  intro after
  have remains : ∀ name ∈ authority.links.names,
      (!authority.names.contains name || copy.offers name) = (after.get? name).isSome := by
    intro name held
    obtain ⟨link, found⟩ : ∃ link, authority.links.get? name = some link := by
      rw [← Option.ne_none_iff_exists', Ne, LinkTable.get_none_iff, not_not]
      exact held
    rw [enrich_get, offers]
    by_cases own : name ∈ authority.names <;> simp [own, found]
  have comes : ∀ name ∈ authority.defined,
      (!authority.links.names.contains name && copy.offers name) =
        ((authority.links.get? name).isNone && (after.get? name).isSome) := by
    intro name known
    have old : (!authority.links.names.contains name) = (authority.links.get? name).isNone := by
      rw [Bool.eq_iff_iff, Option.isNone_iff_eq_none, LinkTable.get_none_iff]
      simp
    rw [enrich_get, if_pos (mem_defined_iff.mp known), old, offers]
  have visited := transplants_names copy authority.names authority.links
  rw [List.filter_congr remains] at visited
  exact visited.trans (congrArg _ (List.filter_congr comes))

/-- A name is offered a link if the copy defines it and has a link for it. -/
theorem offered_exact (copy : Grammar) (name : Text) :
    copy.offeredLink? name =
      if ∃ production ∈ copy.productions, production.name = some name then copy.links.get? name else none := by
  have bears : copy.names.contains name = true ↔
      ∃ production ∈ copy.productions, production.name = some name := by
    simp [names]
  rw [offeredLink?, linkFor?]
  exact if_congr bears rfl rfl

end Grammar

end GrammarPage
