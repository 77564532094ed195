import Mathlib.Data.List.Nodup
import GrammarPage.Proofs.Grammar.Agreement

/-!
Comparison as a relation between grammars. A grammar agrees with itself, and a report read from the other
side is the report of the other side. Agreement passes along a chain but for one gap: where the grammar in
the middle lacks the start symbol, nothing holds the lines of the outer two together.
-/

namespace GrammarPage

/-- The same difference seen from the other side. -/
def Mismatch.swapped (mismatch : Mismatch) : Mismatch :=
  ⟨mismatch.name, mismatch.copy, mismatch.authority⟩

namespace Report

/-- No name stands twice in one list. -/
def Distinct (report : Report) : Prop :=
  (report.mismatches.map (·.name)).Nodup ∧ report.missingInCopy.Nodup ∧ report.missingInAuthority.Nodup

/-- The same differences with the sides exchanged, in whatever order. -/
def Mirrors (left right : Report) : Prop :=
  left.mismatches.Perm (right.mismatches.map Mismatch.swapped) ∧
    left.missingInCopy.Perm right.missingInAuthority ∧ left.missingInAuthority.Perm right.missingInCopy

theorem ok_mirrors {left right : Report} (mirrors : left.Mirrors right) : left.ok = right.ok := by
  obtain ⟨mismatches, inCopy, inAuthority⟩ := mirrors
  rw [ok, ok, mismatches.isEmpty_eq, inCopy.isEmpty_eq, inAuthority.isEmpty_eq, List.isEmpty_map,
    Bool.and_assoc, Bool.and_assoc, Bool.and_comm right.missingInAuthority.isEmpty]

end Report

namespace Grammar

section Mismatches
variable {authority copy : Grammar}

theorem mismatch_iff {name : Text} {mismatch : Mismatch} :
    mismatch? authority copy name = some mismatch ↔
      mismatch.name = name ∧ authority.canonicalOf? name = some mismatch.authority ∧
        copy.canonicalOf? name = some mismatch.copy ∧ mismatch.authority ≠ mismatch.copy := by
  obtain ⟨named, left, right⟩ := mismatch
  rw [mismatch?]
  cases authority.canonicalOf? name with
  | none => simp
  | some line =>
      cases copy.canonicalOf? name with
      | none => simp
      | some line' =>
          by_cases same : line = line'
          · subst same
            simp only [↓reduceIte, reduceCtorEq, false_iff]
            rintro ⟨-, own, other, apart⟩
            exact apart (Option.some.inj (own.symm.trans other))
          · simp only [same, ↓reduceIte, Option.some.injEq, Mismatch.mk.injEq]
            constructor
            · rintro ⟨rfl, rfl, rfl⟩
              exact ⟨rfl, rfl, rfl, same⟩
            · rintro ⟨rfl, rfl, rfl, -⟩
              exact ⟨rfl, rfl, rfl⟩

/-- A mismatch is a name that both grammars define with different lines. -/
theorem mem_mismatches_iff {start : Text} {mismatch : Mismatch} :
    mismatch ∈ (authority.compare copy start).mismatches ↔
      authority.canonicalOf? mismatch.name = some mismatch.authority ∧
        copy.canonicalOf? mismatch.name = some mismatch.copy ∧ mismatch.authority ≠ mismatch.copy := by
  rw [compare, List.mem_filterMap]
  simp only [mismatch_iff]
  constructor
  · rintro ⟨_, -, rfl, lines⟩
    exact lines
  · intro lines
    refine ⟨mismatch.name, ?_, rfl, lines⟩
    rw [mem_defined_iff, ← has_line_iff, lines.1, Option.isSome_some]

theorem mismatch_names (names : List Text) :
    (names.filterMap (mismatch? authority copy)).map (·.name) =
      names.filter fun name => (mismatch? authority copy name).isSome := by
  induction names with
  | nil => rfl
  | cons name rest ih =>
      cases found : mismatch? authority copy name with
      | none => simp [found, ih]
      | some mismatch => simp [found, ih, (mismatch_iff.mp found).1]

end Mismatches

theorem compare_distinct (authority copy : Grammar) (start : Text) :
    (authority.compare copy start).Distinct := by
  have names (grammar : Grammar) : grammar.defined.Nodup := first_occurrences_nodup _
  refine ⟨?_, (names authority).filter _, (names copy).filter _⟩
  rw [compare, mismatch_names]
  exact (names authority).filter _

theorem mismatches_nodup (authority copy : Grammar) (start : Text) :
    (authority.compare copy start).mismatches.Nodup :=
  (compare_distinct authority copy start).1.of_map

/-- A comparison the other way round finds the same with the sides exchanged. -/
theorem compare_mirrors (authority copy : Grammar) (start : Text) :
    (copy.compare authority start).Mirrors (authority.compare copy start) := by
  have swapped : Function.Injective Mismatch.swapped := by
    rintro ⟨_, _, _⟩ ⟨_, _, _⟩ same
    simp_all [Mismatch.swapped]
  refine ⟨?_, .refl _, .refl _⟩
  rw [List.perm_ext_iff_of_nodup (mismatches_nodup copy authority start)
    ((mismatches_nodup authority copy start).map swapped)]
  rintro ⟨name, left, right⟩
  have member : ⟨name, left, right⟩ ∈ (authority.compare copy start).mismatches.map Mismatch.swapped ↔
      (⟨name, right, left⟩ : Mismatch) ∈ (authority.compare copy start).mismatches :=
    List.mem_map_of_injective (a := ⟨name, right, left⟩) swapped
  rw [member, mem_mismatches_iff, mem_mismatches_iff]
  exact ⟨fun ⟨own, other, apart⟩ => ⟨other, own, apart.symm⟩,
    fun ⟨own, other, apart⟩ => ⟨other, own, apart.symm⟩⟩

theorem compare_self_ok (grammar : Grammar) (start : Text) :
    (grammar.compare grammar start).ok = true := by
  refine compare_ok_iff.mpr ⟨fun name left right foundLeft foundRight => ?_, fun _ _ => Iff.rfl⟩
  rw [Option.some.inj (foundLeft.symm.trans foundRight)]

/-- Along a chain all names agree but the start symbol, which the middle need not define. -/
theorem chained_ok_iff {left middle right : Grammar} {start : Text}
    (first : (left.compare middle start).ok = true) (second : (middle.compare right start).ok = true) :
    (left.compare right start).ok = true ↔
      ∀ own other, left.lookup? start = some own → right.lookup? start = some other →
        start ∈ middle.names ∨ own.canonical = other.canonical := by
  obtain ⟨agree, common⟩ := compare_ok_iff.mp first
  obtain ⟨agree', common'⟩ := compare_ok_iff.mp second
  have through : ∀ name own other, name ∈ middle.names → left.lookup? name = some own →
      right.lookup? name = some other → own.canonical = other.canonical := by
    intro name own other inMiddle foundLeft foundRight
    obtain ⟨between, found⟩ := mem_names_iff.mp inMiddle
    exact (agree name own between foundLeft found).trans (agree' name between other found foundRight)
  rw [compare_ok_iff]
  constructor
  · intro ⟨lines, _⟩ own other foundLeft foundRight
    exact .inr (lines start own other foundLeft foundRight)
  · intro ends
    refine ⟨fun name own other foundLeft foundRight => ?_, fun name other =>
      (common name other).trans (common' name other)⟩
    by_cases isStart : name = start
    · -- The start symbol alone may pass by the middle.
      subst isStart
      rcases ends own other foundLeft foundRight with inMiddle | lines
      · exact through name own other inMiddle foundLeft foundRight
      · exact lines
    · exact through name own other ((common name isStart).mp (mem_names_iff.mpr ⟨own, foundLeft⟩))
        foundLeft foundRight

/-- Agreement is reflexive and symmetric, with every report the mirror of its converse, and transitive
wherever the middle defines the start symbol or the ends do not both define it. -/
theorem comparison_equivalence (start : Text) :
    (∀ grammar : Grammar, (grammar.compare grammar start).ok = true) ∧
    (∀ authority copy : Grammar, (authority.compare copy start).Distinct ∧
      (copy.compare authority start).Mirrors (authority.compare copy start) ∧
      (copy.compare authority start).ok = (authority.compare copy start).ok) ∧
    ∀ left middle right : Grammar, (left.compare middle start).ok = true →
      (middle.compare right start).ok = true →
      (start ∈ middle.names ∨ ¬ (start ∈ left.names ∧ start ∈ right.names)) →
      (left.compare right start).ok = true := by
  refine ⟨fun grammar => compare_self_ok grammar start, fun authority copy =>
    ⟨compare_distinct authority copy start, compare_mirrors authority copy start,
      Report.ok_mirrors (compare_mirrors authority copy start)⟩, ?_⟩
  intro left middle right first second defined
  refine (chained_ok_iff first second).mpr fun own other foundLeft foundRight => ?_
  rcases defined with inMiddle | apart
  · exact .inl inMiddle
  · exact absurd ⟨mem_names_iff.mpr ⟨own, foundLeft⟩, mem_names_iff.mpr ⟨other, foundRight⟩⟩ apart

theorem comparison_equivalence_through_exempt :
    let name (text : Text) : Tree := .leaf .reference text .bare
    let rule (bearer : Text) (body : Tree) : Production := ⟨some bearer, some body, none, false⟩
    let left : Grammar := ⟨[rule "start" (name "A"), rule "A" (name "B")], none, .empty⟩
    let middle : Grammar := ⟨[rule "A" (name "B"), ⟨some "A", none, none, false⟩], none, .empty⟩
    let right : Grammar := ⟨[⟨none, none, some "remark", false⟩,
      rule "A" (.sequence (name "B") [] .bare)], some "copy", .empty⟩
    (left.compare middle "start").ok = true ∧ (middle.compare right "start").ok = true ∧
      (("start" : Text) ∈ middle.names ∨ ¬ (("start" : Text) ∈ left.names ∧ ("start" : Text) ∈ right.names)) ∧
      (left.compare right "start").ok = true := by
  intro name rule left middle right
  have first : (left.compare middle "start").ok = true := by decide
  have second : (middle.compare right "start").ok = true := by decide
  have defined : ("start" : Text) ∈ middle.names ∨
      ¬ (("start" : Text) ∈ left.names ∧ ("start" : Text) ∈ right.names) := by decide
  exact ⟨first, second, defined,
    (comparison_equivalence "start").2.2 left middle right first second defined⟩

-- Where only the middle lacks the start symbol, the ends may differ in its line.
example :
    let rule (text : Text) : Production :=
      ⟨some "start", some (.leaf .reference text .bare), none, false⟩
    let left : Grammar := ⟨[rule "A"], none, .empty⟩
    let middle : Grammar := ⟨[], none, .empty⟩
    let right : Grammar := ⟨[rule "B"], none, .empty⟩
    (left.compare middle "start").ok = true ∧ (middle.compare right "start").ok = true ∧
      (left.compare right "start").ok = false := by
  decide

end Grammar

end GrammarPage
