import Mathlib.Data.List.Nodup
import Mathlib.Data.List.Perm.Subperm
import GrammarPage.Grammar.Enrichment

/-!
Links carried over. A table is told by what it has for each name, and setting what it has already leaves
it as it is, order and all. Enrichment settles the names of the grammar and touches no other, so the last
copy decides, and a second visit to settled names writes nothing new.
-/

namespace GrammarPage

namespace LinkTable

theorem find_eq_some_iff {entries : List (Text × Link)} (distinct : (entries.map Prod.fst).Nodup)
    {name : Text} {link : Link} : find? name entries = some link ↔ (name, link) ∈ entries := by
  induction entries with
  | nil => simp [find?]
  | cons entry rest ih =>
      obtain ⟨key, held⟩ := entry
      simp only [List.map_cons, List.nodup_cons] at distinct
      by_cases here : key = name
      · subst here
        have absent : (key, link) ∉ rest := fun later => distinct.1 (List.mem_map_of_mem later)
        simp [find?, absent, eq_comm]
      · simp [find?, here, Ne.symm here, ih distinct.2]

theorem get_eq_some_iff {table : LinkTable} {name : Text} {link : Link} :
    table.get? name = some link ↔ (name, link) ∈ table.entries :=
  find_eq_some_iff table.distinct

theorem put_held {entries : List (Text × Link)} {name : Text} {link : Link}
    (held : find? name entries = some link) : put name link entries = entries := by
  induction entries with
  | nil => simp [find?] at held
  | cons entry rest ih =>
      obtain ⟨key, old⟩ := entry
      by_cases here : key = name
      · obtain rfl : old = link := by simpa [find?, here] using held
        simp [put, here]
      · have later : find? name rest = some link := by simpa [find?, here] using held
        simp [put, here, ih later]

theorem insert_held {table : LinkTable} {name : Text} {link : Link}
    (held : table.get? name = some link) : table.insert name link = table := by
  simp only [insert, put_held held]

theorem erase_absent {table : LinkTable} {name : Text} (absent : table.get? name = none) :
    table.erase name = table := by
  have kept : table.entries.filter (·.1 ≠ name) = table.entries := by
    refine List.filter_eq_self.mpr fun ⟨key, link⟩ member => decide_eq_true ?_
    rintro rfl
    rw [get_eq_some_iff.mpr member] at absent
    cases absent
  simp only [erase, kept]

/-- Two tables agree exactly if they have the same for every name. -/
theorem agrees_iff {left right : LinkTable} :
    left.agrees right = true ↔ ∀ name, left.get? name = right.get? name := by
  have nodup (table : LinkTable) : table.entries.Nodup := table.distinct.of_map
  simp only [agrees, Bool.and_eq_true, decide_eq_true_eq, List.all_eq_true, get_eq_some_iff]
  constructor
  · rintro ⟨lengths, inside⟩ name
    -- Without repetitions, as many entries of which none is missing are all of them.
    have order : left.entries.Perm right.entries :=
      ((nodup left).subperm fun entry member => inside entry member).perm_of_length_le
        (Nat.le_of_eq lengths.symm)
    refine Option.ext fun link => ?_
    rw [get_eq_some_iff, get_eq_some_iff, order.mem_iff]
  · intro same
    have members : ∀ entry : Text × Link, entry ∈ left.entries ↔ entry ∈ right.entries := by
      rintro ⟨name, link⟩
      rw [← get_eq_some_iff, ← get_eq_some_iff, same name]
    exact ⟨((List.perm_ext_iff_of_nodup (nodup left) (nodup right)).mpr members).length_eq,
      fun entry member => (members entry).mp member⟩

end LinkTable

namespace Grammar

theorem transplant_get (copy : Grammar) (table : LinkTable) (name other : Text) :
    (transplant copy table name).get? other =
      if name = other then copy.offeredLink? name else table.get? other := by
  cases offered : copy.offeredLink? name with
  | none => rw [transplant, offered, table.get_erase]
  | some link => rw [transplant, offered, table.get_insert]

theorem transplants_get (copy : Grammar) (names : List Text) (table : LinkTable) (other : Text) :
    (names.foldl (transplant copy) table).get? other =
      if other ∈ names then copy.offeredLink? other else table.get? other := by
  induction names generalizing table with
  | nil => simp
  | cons name rest ih =>
      rw [List.foldl_cons, ih, transplant_get]
      by_cases later : other ∈ rest
      · simp [later]
      · by_cases same : name = other
        · simp [same]
        · simp [later, same, Ne.symm same]

/-- Enrichment gives each name of the grammar what the copy offers for it, and leaves all other names. -/
theorem enrich_get (authority copy : Grammar) (name : Text) :
    (authority.enrich copy).links.get? name =
      if name ∈ authority.names then copy.offeredLink? name else authority.links.get? name :=
  transplants_get copy authority.names authority.links name

theorem transplant_settled {copy : Grammar} {table : LinkTable} {name : Text}
    (settled : table.get? name = copy.offeredLink? name) : transplant copy table name = table := by
  cases offered : copy.offeredLink? name with
  | none =>
      rw [transplant, offered]
      exact LinkTable.erase_absent (settled.trans offered)
  | some link =>
      rw [transplant, offered]
      exact LinkTable.insert_held (settled.trans offered)

theorem transplants_settled {copy : Grammar} {table : LinkTable} {names : List Text}
    (settled : ∀ name ∈ names, table.get? name = copy.offeredLink? name) :
    names.foldl (transplant copy) table = table := by
  induction names with
  | nil => rfl
  | cons name rest ih =>
      rw [List.foldl_cons, transplant_settled (settled name List.mem_cons_self)]
      exact ih fun later member => settled later (List.mem_cons_of_mem name member)

/-- A second enrichment from the same copy finds every name settled. -/
theorem enrich_again (authority copy : Grammar) :
    (authority.enrich copy).enrich copy = authority.enrich copy := by
  have settled : ∀ name ∈ authority.names,
      (authority.enrich copy).links.get? name = copy.offeredLink? name := by
    intro name member
    rw [enrich_get, if_pos member]
  simp only [enrich, Grammar.mk.injEq, true_and]
  exact transplants_settled settled

/-- What a grammar offers for its own names is what its table has. -/
theorem offered_own {grammar : Grammar} {name : Text} (member : name ∈ grammar.names) :
    grammar.links.get? name = grammar.offeredLink? name := by
  rw [offeredLink?, if_pos (List.contains_iff_mem.mpr member), linkFor?]

theorem enrich_self (grammar : Grammar) : grammar.enrich grammar = grammar := by
  rw [enrich, transplants_settled fun name member => offered_own member]

end Grammar

end GrammarPage
