import Mathlib.Data.List.Induction
import GrammarPage.Proofs.Grammar.Equivalence
import GrammarPage.Proofs.Grammar.Unseen

/-!
A report against look-ups. One pass over each grammar indexes the first production of every name, and the
report is three passes over these indexes. What it lists is told by looking single names up, and the order
of its lists by the places of the first productions.
-/

namespace GrammarPage

/-- Productions under their names, in the order in which the names came up. -/
abbrev Index := List (Text × Production)

namespace Index

/-- A name that the index holds keeps its production; a production without a name is passed over. -/
def record (index : Index) (production : Production) : Index :=
  match production.name with
  | some name => if (index.lookup name).isSome then index else index ++ [(name, production)]
  | none => index

/-- The differences of two indexes, read off one name at a time. -/
def report (authority copy : Index) (start : Text) : Report :=
  ⟨authority.filterMap fun (name, own) => (copy.lookup name).bind fun other =>
      if own.canonical = other.canonical then none else some ⟨name, own.canonical, other.canonical⟩,
    (authority.map (·.1)).filter fun name => name ≠ start && (copy.lookup name).isNone,
    (copy.map (·.1)).filter fun name => name ≠ start && (authority.lookup name).isNone⟩

section Recording
variable {index : Index} {production : Production} {name : Text}

theorem record_nameless (nameless : production.name = none) : index.record production = index := by
  rw [record, nameless]

theorem record_held (named : production.name = some name) (held : (index.lookup name).isSome = true) :
    index.record production = index := by
  simp only [record, named, if_pos held]

theorem record_new (named : production.name = some name) (new : index.lookup name = none) :
    index.record production = index ++ [(name, production)] := by
  simp [record, named, new]

end Recording

theorem record_lookup (index : Index) (production : Production) (name : Text) :
    (index.record production).lookup name =
      (index.lookup name).or (if production.name = some name then some production else none) := by
  cases named : production.name with
  | none => simp [record_nameless named]
  | some own =>
      cases held : index.lookup own with
      | some first =>
          rw [record_held named (by rw [held]; rfl)]
          by_cases same : own = name
          · simp [← same, held]
          · simp [same]
      | none =>
          rw [record_new named held, List.lookup_append]
          by_cases same : own = name
          · simp [same]
          · have apart : (name == own) = false := beq_false_of_ne (Ne.symm same)
            simp [List.lookup_cons, same, apart]

/-- Behind any productions the index holds for each name the first of them that bears it, unless it held one
before. -/
theorem records_lookup (productions : List Production) (index : Index) (name : Text) :
    (productions.foldl record index).lookup name =
      (index.lookup name).or (productions.find? (·.name = some name)) := by
  induction productions generalizing index with
  | nil => simp
  | cons production rest ih =>
      rw [List.foldl_cons, ih, record_lookup, Option.or_assoc]
      by_cases named : production.name = some name <;> simp [named]

end Index

theorem first_occurrences_new {name : Text} {front : List Text} (new : name ∉ front) :
    firstOccurrences (front ++ [name]) = firstOccurrences front ++ [name] := by
  induction front with
  | nil => rfl
  | cons first rest ih =>
      obtain ⟨apart, later⟩ : name ≠ first ∧ name ∉ rest := by simpa using new
      rw [List.cons_append, firstOccurrences, ih later, List.filter_append, firstOccurrences]
      simp [apart]

theorem first_occurrences_snoc (names : List Text) (name : Text) :
    firstOccurrences (names ++ [name]) = firstOccurrences names ++ if name ∈ names then [] else [name] := by
  split
  · rename_i old
    rw [first_occurrences_again old, List.append_nil, List.append_nil]
  · rename_i new
    exact first_occurrences_new new

namespace Grammar

/-- The first productions of the names, in one pass. -/
def index (grammar : Grammar) : Index := grammar.productions.foldl Index.record []

theorem index_lookup (grammar : Grammar) (name : Text) :
    grammar.index.lookup name = grammar.lookup? name := by
  rw [index, Index.records_lookup]
  rfl

section Passes
variable (productions : List Production)

/-- What an index of productions has to come to. -/
def firstEntries : Index :=
  (firstOccurrences (productions.filterMap (·.name))).filterMap fun name =>
    (productions.find? (·.name = some name)).map (name, ·)

theorem first_entries_passed {front : List Production} {production : Production}
    (passed : Passed front production) : firstEntries (front ++ [production]) = firstEntries front := by
  have lookup := lookup_passed passed []
  rw [List.append_nil] at lookup
  simp only [firstEntries, defined_passed passed [], List.append_nil, lookup]

theorem first_entries_new {front : List Production} {production : Production} {name : Text}
    (named : production.name = some name) (new : name ∉ front.filterMap (·.name)) :
    firstEntries (front ++ [production]) = firstEntries front ++ [(name, production)] := by
  have absent : front.find? (·.name = some name) = none := by
    simpa [List.find?_eq_none] using new
  have kept : ∀ other ∈ firstOccurrences (front.filterMap (·.name)),
      ((front ++ [production]).find? (·.name = some other)).map (other, ·) =
        (front.find? (·.name = some other)).map (other, ·) := by
    intro other member
    have apart : other ≠ name := by
      rintro rfl
      exact new (mem_first_occurrences.mp member)
    simp [List.find?_append, named, Ne.symm apart]
  rw [firstEntries, List.filterMap_append, List.filterMap_cons_some named, List.filterMap_nil,
    first_occurrences_new new, List.filterMap_append, List.filterMap_congr kept]
  simp [firstEntries, List.find?_append, absent, named]

-- An index grows at its end, so the induction takes the productions from there.
theorem index_exact : productions.foldl Index.record [] = firstEntries productions := by
  induction productions using List.reverseRecOn with
  | nil => rfl
  | append_singleton front production ih =>
      have held : ∀ name, (firstEntries front).lookup name = front.find? (·.name = some name) := by
        intro name
        rw [← ih, Index.records_lookup, List.lookup_nil, Option.none_or]
      rw [List.foldl_append, List.foldl_cons, List.foldl_nil, ih]
      cases named : production.name with
      | none => rw [Index.record_nameless named, first_entries_passed (.inl named)]
      | some name =>
          by_cases old : name ∈ front.filterMap (·.name)
          · obtain ⟨earlier, member, same⟩ := List.mem_filterMap.mp old
            have found : ((firstEntries front).lookup name).isSome = true := by
              rw [held, List.find?_isSome]
              exact ⟨earlier, member, by simpa using same⟩
            rw [Index.record_held named found,
              first_entries_passed (.inr ⟨earlier, member, same.trans named.symm⟩)]
          · have absent : (firstEntries front).lookup name = none := by
              simpa [held, List.find?_eq_none] using old
            rw [Index.record_new named absent, first_entries_new named old]

end Passes

theorem index_entries (grammar : Grammar) :
    grammar.index = grammar.defined.filterMap fun name => (grammar.lookup? name).map (name, ·) :=
  index_exact grammar.productions

theorem index_names (grammar : Grammar) : grammar.index.map (·.1) = grammar.defined := by
  have found : ∀ name ∈ grammar.defined,
      ((grammar.lookup? name).map (name, ·)).map Prod.fst = some name := by
    intro name member
    obtain ⟨production, found⟩ := mem_names_iff.mp (mem_defined_iff.mp member)
    rw [found]
    rfl
  rw [index_entries, List.map_filterMap, List.filterMap_congr found, List.filterMap_some]

/-- A comparison by name is the three passes over the indexes. -/
theorem compare_indexed (authority copy : Grammar) (start : Text) :
    authority.compare copy start = authority.index.report copy.index start := by
  have mismatches : authority.defined.filterMap (mismatch? authority copy) =
      authority.index.filterMap fun (name, own) => (copy.index.lookup name).bind fun other =>
        if own.canonical = other.canonical then none
        else some ⟨name, own.canonical, other.canonical⟩ := by
    rw [authority.index_entries, List.filterMap_filterMap]
    refine List.filterMap_congr fun name _ => ?_
    rw [mismatch?, canonicalOf?, canonicalOf?, ← copy.index_lookup]
    cases authority.lookup? name with
    | none => rfl
    | some own => cases found : copy.index.lookup name <;> simp [found]
  have missing (grammar other : Grammar) : grammar.missingFrom other start =
      (grammar.index.map (·.1)).filter fun name => name ≠ start && (other.index.lookup name).isNone := by
    have absent : ∀ name, (!other.names.contains name) = (other.lookup? name).isNone := by
      intro name
      rw [Bool.eq_iff_iff, Option.isNone_iff_eq_none, Option.eq_none_iff_forall_ne_some]
      simp [mem_names_iff]
    simp only [missingFrom, index_names, index_lookup, absent]
  rw [compare, mismatches, missing, missing, Index.report]

/-- One name is first borne in front of where another is. -/
def Precedes (grammar : Grammar) (left right : Text) : Prop :=
  ∃ early late, grammar.position? left = some early ∧ grammar.position? right = some late ∧ early < late

/-- Each name once, in the order of first occurrence. -/
def InOrder (grammar : Grammar) (names : List Text) : Prop :=
  names.Nodup ∧ names.Pairwise grammar.Precedes

section Order
variable {production : Production} {rest : List Production} {title : Option Text} {links : LinkTable}

/-- A production in front moves the first productions of other names by one place. -/
theorem precedes_behind {left right : Text} (apartLeft : production.name ≠ some left)
    (apartRight : production.name ≠ some right) (before : Precedes ⟨rest, title, links⟩ left right) :
    Precedes ⟨production :: rest, title, links⟩ left right := by
  obtain ⟨early, late, foundLeft, foundRight, order⟩ := before
  rw [position?] at foundLeft foundRight
  refine ⟨early + 1, late + 1, ?_, ?_, Nat.add_lt_add_right order 1⟩
  · simp [position?, List.findIdx?_cons, apartLeft, foundLeft]
  · simp [position?, List.findIdx?_cons, apartRight, foundRight]

theorem first_precedes {first name : Text} (named : production.name = some first)
    (known : name ∈ defined ⟨rest, title, links⟩) (apart : name ≠ first) :
    Precedes ⟨production :: rest, title, links⟩ first name := by
  obtain ⟨bearer, member, bears⟩ := List.mem_filterMap.mp (mem_defined_iff.mp known)
  obtain ⟨late, found⟩ : ∃ late, rest.findIdx? (·.name = some name) = some late := by
    rw [← Option.isSome_iff_exists, List.findIdx?_isSome, List.any_eq_true]
    exact ⟨bearer, member, by simpa using bears⟩
  refine ⟨0, late + 1, ?_, ?_, Nat.succ_pos late⟩
  · simp [position?, List.findIdx?_cons, named]
  · simp [position?, List.findIdx?_cons, named, Ne.symm apart, found]

theorem defined_nameless (nameless : production.name = none) :
    defined ⟨production :: rest, title, links⟩ = defined ⟨rest, title, links⟩ := by
  simp [defined, names, nameless]

theorem defined_named {first : Text} (named : production.name = some first) :
    defined ⟨production :: rest, title, links⟩ =
      first :: (defined ⟨rest, title, links⟩).filter (· ≠ first) := by
  simp [defined, names, named, firstOccurrences]

end Order

theorem defined_in_order (grammar : Grammar) : grammar.InOrder grammar.defined := by
  refine ⟨first_occurrences_nodup _, ?_⟩
  obtain ⟨productions, title, links⟩ := grammar
  induction productions with
  | nil => exact .nil
  | cons production rest ih =>
      cases named : production.name with
      | none =>
          rw [defined_nameless named]
          exact ih.imp (precedes_behind (by simp [named]) (by simp [named]))
      | some first =>
          have later : ∀ name ∈ (defined ⟨rest, title, links⟩).filter (· ≠ first),
              name ∈ defined ⟨rest, title, links⟩ ∧ name ≠ first := by
            intro name member
            exact (List.mem_filter.mp member).imp_right of_decide_eq_true
          have apart : ∀ name ∈ (defined ⟨rest, title, links⟩).filter (· ≠ first),
              production.name ≠ some name := by
            intro name member same
            exact (later name member).2 (Option.some.inj (same.symm.trans named))
          rw [defined_named named, List.pairwise_cons]
          refine ⟨fun name member => ?_, ?_⟩
          · exact first_precedes named (later name member).1 (later name member).2
          · exact (ih.filter _).imp_of_mem fun {left right} inLeft inRight =>
              precedes_behind (apart left inLeft) (apart right inRight)

theorem in_order_filter (grammar : Grammar) (keep : Text → Bool) :
    grammar.InOrder (grammar.defined.filter keep) :=
  ⟨grammar.defined_in_order.1.filter keep, grammar.defined_in_order.2.filter keep⟩

theorem mem_missing_iff {grammar other : Grammar} {start name : Text} :
    name ∈ grammar.missingFrom other start ↔
      name ≠ start ∧ name ∈ grammar.names ∧ name ∉ other.names := by
  simp [missingFrom, mem_defined_iff, and_left_comm]

/-- A report is that of the indexes, and holds exactly the differences: the names whose first productions
have different lines on the two sides, with both lines, and the names other than the start symbol that one
side alone defines; each once and in order. -/
theorem comparison_exact (authority copy : Grammar) (start : Text) :
    let report := authority.compare copy start
    report = authority.index.report copy.index start ∧
    (∀ mismatch, mismatch ∈ report.mismatches ↔ ∃ own other,
      authority.lookup? mismatch.name = some own ∧ copy.lookup? mismatch.name = some other ∧
        own.canonical ≠ other.canonical ∧
        mismatch.authority = own.canonical ∧ mismatch.copy = other.canonical) ∧
    authority.InOrder (report.mismatches.map (·.name)) ∧
    (∀ name, name ∈ report.missingInCopy ↔
      name ≠ start ∧ name ∈ authority.names ∧ name ∉ copy.names) ∧
    authority.InOrder report.missingInCopy ∧
    (∀ name, name ∈ report.missingInAuthority ↔
      name ≠ start ∧ name ∈ copy.names ∧ name ∉ authority.names) ∧
    copy.InOrder report.missingInAuthority ∧
    (report.ok = true ↔
      report.mismatches = [] ∧ report.missingInCopy = [] ∧ report.missingInAuthority = []) := by
  refine ⟨compare_indexed authority copy start, fun mismatch => ?_, ?_, fun name => mem_missing_iff,
    in_order_filter _ _, fun name => mem_missing_iff, in_order_filter _ _, ?_⟩
  · rw [mem_mismatches_iff, canonicalOf?, canonicalOf?]
    simp only [Option.map_eq_some_iff]
    constructor
    · rintro ⟨⟨own, found, line⟩, ⟨other, found', line'⟩, apart⟩
      exact ⟨own, other, found, found', by rwa [line, line'], line.symm, line'.symm⟩
    · rintro ⟨own, other, found, found', apart, line, line'⟩
      exact ⟨⟨own, found, line.symm⟩, ⟨other, found', line'.symm⟩, by rwa [line, line']⟩
  · rw [compare, mismatch_names]
    exact in_order_filter _ _
  · simp [Report.ok, and_assoc]

end Grammar

end GrammarPage
