import GrammarPage.Grammar.Comparison

/-!
When a comparison finds nothing: the first productions of every common name have one canonical line, and
no name but the start symbol is defined on one side only.
-/

namespace GrammarPage.Grammar

theorem lookup_name {grammar : Grammar} {name : Text} {production : Production}
    (found : grammar.lookup? name = some production) : production.name = some name := by
  simpa using List.find?_some found

theorem lookup_mem {grammar : Grammar} {name : Text} {production : Production}
    (found : grammar.lookup? name = some production) : production ∈ grammar.productions :=
  List.mem_of_find?_eq_some found

-- A look-up takes the first production of a name, so later ones with the same name play no part.
theorem mem_names_iff {grammar : Grammar} {name : Text} :
    name ∈ grammar.names ↔ ∃ production, grammar.lookup? name = some production := by
  constructor
  · intro member
    obtain ⟨production, inGrammar, named⟩ := List.mem_filterMap.mp member
    have found : (grammar.lookup? name).isSome := by
      rw [lookup?, List.find?_isSome]
      exact ⟨production, inGrammar, by simpa using named⟩
    exact Option.isSome_iff_exists.mp found
  · rintro ⟨production, found⟩
    exact List.mem_filterMap.mpr ⟨production, lookup_mem found, lookup_name found⟩

theorem mem_defined_iff {grammar : Grammar} {name : Text} :
    name ∈ grammar.defined ↔ name ∈ grammar.names := mem_first_occurrences

/-- A name is defined exactly if it has a canonical line. -/
theorem has_line_iff {grammar : Grammar} {name : Text} :
    (grammar.canonicalOf? name).isSome = true ↔ name ∈ grammar.names := by
  rw [mem_names_iff, canonicalOf?, Option.isSome_map, Option.isSome_iff_exists]

theorem missing_from_eq_nil_iff {grammar other : Grammar} {start : Text} :
    grammar.missingFrom other start = [] ↔
      ∀ name, name ≠ start → name ∈ grammar.names → name ∈ other.names := by
  simp only [missingFrom, List.filter_eq_nil_iff, mem_defined_iff, Bool.and_eq_true,
    decide_eq_true_eq, Bool.not_eq_true', not_and, Bool.not_eq_false, List.contains_iff_mem]
  exact ⟨fun all name other member => all name member other,
    fun all name member other => all name other member⟩

theorem mismatch_eq_none_iff {authority copy : Grammar} {name : Text} :
    mismatch? authority copy name = none ↔
      ∀ left right, authority.lookup? name = some left → copy.lookup? name = some right →
        left.canonical = right.canonical := by
  unfold mismatch? canonicalOf?
  cases authority.lookup? name with
  | none => simp
  | some left =>
      cases copy.lookup? name with
      | none => simp
      | some right => simp

/-- A comparison finds nothing exactly if common names agree and only the start symbol may be missing. -/
theorem compare_ok_iff {authority copy : Grammar} {start : Text} :
    (authority.compare copy start).ok = true ↔
      (∀ name left right, authority.lookup? name = some left → copy.lookup? name = some right →
        left.canonical = right.canonical) ∧
      ∀ name, name ≠ start → (name ∈ authority.names ↔ name ∈ copy.names) := by
  simp only [Report.ok, compare, Bool.and_eq_true, List.isEmpty_iff, missing_from_eq_nil_iff,
    List.filterMap_eq_nil_iff, mismatch_eq_none_iff, mem_defined_iff]
  constructor
  · rintro ⟨⟨agree, inCopy⟩, inAuthority⟩
    refine ⟨fun name left right foundLeft foundRight => ?_, fun name other =>
      ⟨inCopy name other, inAuthority name other⟩⟩
    exact agree name (mem_names_iff.mpr ⟨left, foundLeft⟩) left right foundLeft foundRight
  · rintro ⟨agree, common⟩
    exact ⟨⟨fun name _ left right foundLeft foundRight => agree name left right foundLeft foundRight,
      fun name other => (common name other).mp⟩, fun name other => (common name other).mpr⟩

end GrammarPage.Grammar
