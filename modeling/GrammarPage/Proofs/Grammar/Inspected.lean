import GrammarPage.Grammar.Warnings
import GrammarPage.Proofs.Grammar.Differences
import GrammarPage.Proofs.Tree.Induction

/-!
Warnings against what is wrong with a grammar. One pass counts the names, and the counts serve every check: they
tell the names that repeat, the references that lead nowhere and the names that want a reference. No warning is
given exactly if nothing is wrong, and otherwise there is one for each thing that is.
-/

namespace GrammarPage

namespace Tree

def reference? : Tree → Option Text
  | .leaf .reference text _ => some text
  | _ => none

theorem reference_iff {node : Tree} {text : Text} :
    node.reference? = some text ↔ ∃ trivia, node = .leaf .reference text trivia := by
  rcases node with ⟨_ | _ | _, own, trivia⟩ | _ | _ | _ <;> simp [reference?, eq_comm]

theorem references_exact (tree : Tree) : tree.references = tree.walk.filterMap reference? := by
  rw [references]
  refine List.filterMap_congr fun node _ => ?_
  rcases node with ⟨_ | _ | _, own, trivia⟩ | _ | _ | _ <;> rfl

end Tree

/-- Names with the number of times that each has come up, in the order in which they first did. -/
abbrev Tally := List (Text × Nat)

namespace Tally

/-- One more of a name. -/
def bump : Tally → Text → Tally
  | [], name => [(name, 1)]
  | (known, count) :: rest, name =>
      if known = name then (known, count + 1) :: rest else (known, count) :: bump rest name

def holds (tally : Tally) (name : Text) : Bool := tally.any fun entry => entry.1 = name

def repeated (tally : Tally) : List Warning :=
  tally.filterMap fun (name, count) => if 1 < count then some (.repeated name count) else none

/-- A production with nothing to it is passed over once that is said. -/
def inspect (tally : Tally) (index : Nat) (production : Production) : List Warning :=
  if production.name.isNone && production.body.isNone && (filled production.comment).isNone then [.empty index]
  else
    (if production.name.isNone && production.body.isSome then [.nameless index] else [])
      ++ match production.body with
        | some body => body.walk.filterMap fun node => node.reference?.bind fun text =>
            if tally.holds text then none else some (.undefined production.label text)
        | none => []

def unreferenced (tally : Tally) (start : Text) (referred : List Text) : List Warning :=
  tally.filterMap fun (name, _) =>
    if name ≠ start && !referred.contains name then some (.unreferenced name) else none

variable (counts : Text → Nat) (name : Text)

theorem bump_new {known : List Text} (new : name ∉ known) :
    bump (known.map fun key => (key, counts key)) name = (known.map fun key => (key, counts key)) ++ [(name, 1)] := by
  induction known with
  | nil => rfl
  | cons key rest ih =>
      obtain ⟨apart, later⟩ : name ≠ key ∧ name ∉ rest := by simpa using new
      rw [List.map_cons, bump, if_neg (Ne.symm apart), ih later, List.cons_append]

theorem bump_known {known : List Text} (distinct : known.Nodup) (old : name ∈ known) :
    bump (known.map fun key => (key, counts key)) name =
      known.map fun key => (key, counts key + if key = name then 1 else 0) := by
  induction known with
  | nil => cases old
  | cons key rest ih =>
      obtain ⟨once, distinct⟩ := List.nodup_cons.mp distinct
      rw [List.map_cons, List.map_cons, bump]
      by_cases here : key = name
      · subst here
        have others : ∀ other ∈ rest, (other, counts other) = (other, counts other + if other = key then 1 else 0) := by
          intro other member
          have apart : other ≠ key := fun same => once (same ▸ member)
          simp [apart]
        rw [if_pos rfl, List.map_congr_left others, if_pos rfl]
      · have later : name ∈ rest := (List.mem_cons.mp old).resolve_left (Ne.symm here)
        rw [if_neg here, ih distinct later, if_neg here]
        rfl

/-- Counting in one pass comes to the count of each name. -/
theorem tally_exact (names : List Text) :
    names.foldl bump [] = (firstOccurrences names).map fun name => (name, names.count name) := by
  induction names using List.reverseRecOn with
  | nil => rfl
  | append_singleton front name ih =>
      have counted : ∀ key : Text, (front ++ [name]).count key = front.count key + if key = name then 1 else 0 := by
        intro key
        by_cases same : key = name
        · simp [same]
        · simp [same, Ne.symm same]
      rw [List.foldl_append, List.foldl_cons, List.foldl_nil, ih, first_occurrences_snoc]
      simp only [counted]
      by_cases old : name ∈ front
      · rw [bump_known _ _ (first_occurrences_nodup front) (mem_first_occurrences.mpr old), if_pos old, List.append_nil]
      · have others : ∀ key ∈ firstOccurrences front,
            (key, front.count key) = (key, front.count key + if key = name then 1 else 0) := by
          intro key member
          have apart : key ≠ name := fun same => old (same ▸ mem_first_occurrences.mp member)
          simp [apart]
        rw [bump_new _ _ (fun member => old (mem_first_occurrences.mp member)), if_neg old, List.map_append,
          List.map_congr_left others, List.map_singleton, List.count_eq_zero.mpr old, if_pos rfl, Nat.zero_add]

end Tally

namespace Grammar

/-- All checks of a grammar, with one count of its names for all of them. -/
def survey (grammar : Grammar) (start : Text) : List Warning :=
  let tally := grammar.names.foldl Tally.bump []
  let referred := grammar.productions.flatMap fun production =>
    (production.body.map fun body => body.walk.filterMap Tree.reference?).getD []
  tally.repeated ++ (grammar.productions.mapIdx tally.inspect).flatten ++ tally.unreferenced start referred

/-- Some body refers to a name, at whatever depth. -/
def Refers (grammar : Grammar) (name : Text) : Prop :=
  ∃ production ∈ grammar.productions, ∃ body, production.body = some body ∧
    ∃ trivia, .leaf .reference name trivia ∈ body.walk

/-- The texts of the references in a body that are no names of productions, in the order of the walk. -/
def unresolved (grammar : Grammar) (body : Tree) : List Text :=
  (body.walk.filterMap Tree.reference?).filter fun name => name ∉ grammar.names

/-- What is wrong with one production, by its shape. -/
inductive Inspected (grammar : Grammar) (index : Nat) (production : Production) : List Warning → Prop where
  | empty (nameless : production.name = none) (bodiless : production.body = none)
      (silent : filled production.comment = none) : Inspected grammar index production [.empty index]
  | remark (bodiless : production.body = none)
      (given : production.name ≠ none ∨ filled production.comment ≠ none) : Inspected grammar index production []
  | nameless (nameless : production.name = none) {body : Tree} (bodied : production.body = some body) :
      Inspected grammar index production
        (.nameless index :: (grammar.unresolved body).map (.undefined production.label))
  | rule (named : production.name ≠ none) {body : Tree} (bodied : production.body = some body) :
      Inspected grammar index production ((grammar.unresolved body).map (.undefined production.label))

variable (grammar : Grammar)

theorem bears_iff {name : Text} :
    name ∈ grammar.names ↔ ∃ production ∈ grammar.productions, production.name = some name := by
  simp [names]

theorem production_references (production : Production) :
    production.references = (production.body.map fun body => body.walk.filterMap Tree.reference?).getD [] := by
  rw [Production.references]
  cases production.body with
  | none => rfl
  | some body => exact body.references_exact

theorem refers_iff {name : Text} : name ∈ grammar.references ↔ grammar.Refers name := by
  rw [references, Refers, List.mem_flatMap]
  refine exists_congr fun production => and_congr_right fun _ => ?_
  rw [production_references]
  cases production.body with
  | none => simp
  | some body =>
      simp only [Option.map_some, Option.getD_some, List.mem_filterMap, Tree.reference_iff]
      constructor
      · rintro ⟨node, below, trivia, rfl⟩
        exact ⟨body, rfl, trivia, below⟩
      · rintro ⟨other, same, trivia, below⟩
        obtain rfl := Option.some.inj same
        exact ⟨_, below, trivia, rfl⟩

theorem undefined_unresolved {production : Production} {body : Tree} (bodied : production.body = some body) :
    grammar.undefinedWarnings production = (grammar.unresolved body).map (.undefined production.label) := by
  rw [undefinedWarnings, production_references, bodied, unresolved]
  simp

/-- The shape of a production tells its warnings. -/
theorem inspected_iff {index : Nat} {production : Production} {found : List Warning} :
    grammar.Inspected index production found ↔ found = grammar.productionWarnings index production := by
  rw [productionWarnings]
  constructor
  · rintro (⟨nameless, bodiless, silent⟩ | ⟨bodiless, given⟩ | ⟨nameless, bodied⟩ | ⟨named, bodied⟩)
    · simp [nameless, bodiless, silent]
    · cases named : production.name with
      | none =>
          have said : (filled production.comment).isSome = true :=
            Option.isSome_iff_ne_none.mpr (given.resolve_left (not_not.mpr named))
          simp [bodiless, said]
      | some name => simp [undefinedWarnings, Production.references, bodiless]
    · rw [nameless, bodied, undefined_unresolved grammar bodied]
    · obtain ⟨name, named⟩ := Option.ne_none_iff_exists'.mp named
      rw [named, ← undefined_unresolved grammar bodied]
  · rintro rfl
    cases bodied : production.body with
    | none =>
        cases named : production.name with
        | none =>
            cases said : filled production.comment with
            | none => exact .empty named bodied said
            | some text => exact .remark bodied (.inr (by simp [said]))
        | some name =>
            have none : grammar.undefinedWarnings production = [] := by
              simp [undefinedWarnings, Production.references, bodied]
            simp only [none]
            exact .remark bodied (.inl (by simp [named]))
    | some body =>
        cases named : production.name with
        | none =>
            simp only [undefined_unresolved grammar bodied]
            exact .nameless named bodied
        | some name =>
            simp only [undefined_unresolved grammar bodied]
            exact .rule (by simp [named]) bodied

theorem tally_names : grammar.names.foldl Tally.bump [] =
    grammar.defined.map fun name => (name, grammar.names.count name) :=
  Tally.tally_exact grammar.names

theorem tally_holds (name : Text) :
    Tally.holds (grammar.names.foldl Tally.bump []) name = grammar.names.contains name := by
  rw [tally_names, Tally.holds, List.any_map, Bool.eq_iff_iff, List.any_eq_true, List.contains_iff_mem]
  simp [mem_defined_iff]

theorem tally_unresolved (body : Tree) (label : Text) :
    (body.walk.filterMap fun node => node.reference?.bind fun text =>
      if Tally.holds (grammar.names.foldl Tally.bump []) text then none
      else some (Warning.undefined label text)) = (grammar.unresolved body).map (.undefined label) := by
  rw [unresolved, ← List.filterMap_eq_map, List.filterMap_filter, List.filterMap_filterMap]
  refine List.filterMap_congr fun node _ => ?_
  cases node.reference? with
  | none => rfl
  | some text => by_cases known : text ∈ grammar.names <;> simp [tally_holds, known]

/-- Passing over an empty production misses none of its warnings. -/
theorem tally_inspect (index : Nat) (production : Production) :
    Tally.inspect (grammar.names.foldl Tally.bump []) index production =
      grammar.productionWarnings index production := by
  rw [← inspected_iff, Tally.inspect]
  cases bodied : production.body with
  | none =>
      cases named : production.name with
      | none =>
          cases said : filled production.comment with
          | none => exact .empty named bodied said
          | some text => exact .remark bodied (.inr (by simp [said]))
      | some name => exact .remark bodied (.inl (by simp [named]))
  | some body =>
      simp only [tally_unresolved]
      cases named : production.name with
      | none => exact .nameless named bodied
      | some name => exact .rule (by simp [named]) bodied

theorem survey_exact (start : Text) : grammar.warnings start = grammar.survey start := by
  have referred : (grammar.productions.flatMap fun production =>
      (production.body.map fun body => body.walk.filterMap Tree.reference?).getD []) = grammar.references :=
    List.flatMap_congr fun production _ => (production_references production).symm
  have inspected : Tally.inspect (grammar.names.foldl Tally.bump []) = grammar.productionWarnings := by
    funext index production
    exact grammar.tally_inspect index production
  rw [survey, referred, inspected, tally_names, warnings]
  congr 1
  · congr 1
    rw [repeatedWarnings, Tally.repeated, List.filterMap_map]
    rfl
  · rw [unreferencedWarnings, Tally.unreferenced, List.filterMap_map, ← List.filterMap_eq_map,
      List.filterMap_filter]
    rfl

theorem repeated_warnings_exact :
    grammar.repeatedWarnings = (grammar.defined.filter fun name => 1 < grammar.names.count name).map fun name =>
      .repeated name (grammar.names.count name) := by
  rw [← List.filterMap_eq_map, List.filterMap_filter, repeatedWarnings]
  exact List.filterMap_congr fun name _ => by simp

theorem unresolved_nil_iff {body : Tree} :
    grammar.unresolved body = [] ↔ ∀ text trivia, .leaf .reference text trivia ∈ body.walk →
      ∃ production ∈ grammar.productions, production.name = some text := by
  rw [unresolved, List.filter_eq_nil_iff]
  constructor
  · intro none text trivia below
    have known := none text (List.mem_filterMap.mpr ⟨_, below, rfl⟩)
    exact grammar.bears_iff.mp (by simpa using known)
  · intro resolved text member
    obtain ⟨node, below, refers⟩ := List.mem_filterMap.mp member
    obtain ⟨trivia, rfl⟩ := Tree.reference_iff.mp refers
    simpa using grammar.bears_iff.mpr (resolved text trivia below)

/-- Nothing is said of a production that has a name or says something, and refers to names of productions only. -/
theorem inspected_nil_iff {index : Nat} {production : Production} :
    grammar.productionWarnings index production = [] ↔
      (production.name = none → production.body = none ∧ filled production.comment ≠ none) ∧
        ∀ body, production.body = some body → grammar.unresolved body = [] := by
  rw [eq_comm, ← inspected_iff]
  constructor
  · intro inspected
    generalize none : ([] : List Warning) = found at inspected
    cases inspected with
    | empty nameless bodiless silent => cases none
    | remark bodiless given =>
        exact ⟨fun nameless => ⟨bodiless, given.resolve_left (not_not.mpr nameless)⟩,
          fun body bodied => by simp [bodiless] at bodied⟩
    | nameless nameless bodied => cases none
    | @rule named body bodied =>
        refine ⟨fun nameless => absurd nameless named, fun other same => ?_⟩
        obtain rfl : body = other := Option.some.inj (bodied.symm.trans same)
        exact List.map_eq_nil_iff.mp none.symm
  · rintro ⟨said, resolved⟩
    cases bodied : production.body with
    | none =>
        refine .remark bodied ?_
        by_cases nameless : production.name = none
        · exact .inr (said nameless).2
        · exact .inl nameless
    | some body =>
        have named : production.name ≠ none := fun nameless => by simp [(said nameless).1] at bodied
        have rule : grammar.Inspected index production _ := .rule named bodied
        rwa [resolved body bodied] at rule

/-- Nothing is wrong with a grammar: no name is defined twice, every reference is to a name of a production, every
production has a name or at least says something, and every name but the start symbol is referred to. -/
structure Sound (grammar : Grammar) (start : Text) : Prop where
  distinct : grammar.names.Nodup
  resolved : ∀ production ∈ grammar.productions, ∀ body, production.body = some body →
    ∀ text trivia, .leaf .reference text trivia ∈ body.walk →
      ∃ other ∈ grammar.productions, other.name = some text
  named : ∀ production ∈ grammar.productions, production.name = none →
    production.body = none ∧ ∃ text, production.comment = some text ∧ text ≠ ""
  referred : ∀ production ∈ grammar.productions, ∀ name, production.name = some name → name ≠ start →
    grammar.Refers name

theorem filled_given {comment : Option Text} :
    filled comment ≠ none ↔ ∃ text, comment = some text ∧ text ≠ "" := by
  cases comment <;> simp [filled, Option.filter]

theorem repeated_nil_iff : grammar.repeatedWarnings = [] ↔ grammar.names.Nodup := by
  rw [repeated_warnings_exact, List.map_eq_nil_iff, List.filter_eq_nil_iff, List.nodup_iff_count_le_one]
  constructor
  · intro once name
    by_cases known : name ∈ grammar.names
    · simpa using once name (mem_defined_iff.mpr known)
    · simp [List.count_eq_zero.mpr known]
  · intro once name _
    simpa using once name

theorem unreferenced_nil_iff (start : Text) : grammar.unreferencedWarnings start = [] ↔
    ∀ production ∈ grammar.productions, ∀ name, production.name = some name → name ≠ start →
      grammar.Refers name := by
  rw [unreferencedWarnings, List.map_eq_nil_iff, List.filter_eq_nil_iff]
  constructor
  · intro none production member name named other
    have known : name ∈ grammar.names := grammar.bears_iff.mpr ⟨production, member, named⟩
    rw [← refers_iff]
    simpa [other] using none name (mem_defined_iff.mpr known)
  · intro referred name member
    obtain ⟨production, inside, named⟩ := grammar.bears_iff.mp (mem_defined_iff.mp member)
    by_cases other : name = start
    · simp [other]
    · simp [grammar.refers_iff.mpr (referred production inside name named other)]

/-- Where a production stands has no part in whether anything is said of it. -/
theorem all_inspected_nil_iff : (grammar.productions.mapIdx grammar.productionWarnings).flatten = [] ↔
    ∀ production ∈ grammar.productions, grammar.productionWarnings 0 production = [] := by
  have anywhere : ∀ index production, grammar.productionWarnings index production = [] ↔
      grammar.productionWarnings 0 production = [] := by
    intro index production
    rw [inspected_nil_iff, inspected_nil_iff]
  rw [List.mapIdx_eq_zipIdx_map, List.flatten_eq_nil_iff, List.forall_mem_map]
  simp only [anywhere]
  conv_rhs => rw [← List.zipIdx_map_fst 0 grammar.productions, List.forall_mem_map]

theorem warnings_nil_iff (start : Text) : grammar.warnings start = [] ↔ grammar.Sound start := by
  rw [warnings, List.append_eq_nil_iff, List.append_eq_nil_iff, repeated_nil_iff, unreferenced_nil_iff,
    all_inspected_nil_iff]
  simp only [inspected_nil_iff, unresolved_nil_iff, filled_given]
  constructor
  · rintro ⟨⟨distinct, each⟩, referred⟩
    exact ⟨distinct, fun production member => (each production member).2,
      fun production member => (each production member).1, referred⟩
  · rintro ⟨distinct, resolved, named, referred⟩
    exact ⟨⟨distinct, fun production member => ⟨named production member, resolved production member⟩⟩, referred⟩

/-- Warnings are those of the survey, and there are none exactly if nothing is wrong. In order they are: one for
each name that repeats, with its count; what is wrong with each production, by its shape; and one for each name but
the start symbol that no body refers to. Names come in the order of their first productions. -/
theorem warnings_exact (start : Text) :
    grammar.warnings start = grammar.survey start ∧
    (grammar.warnings start = [] ↔ grammar.Sound start) ∧
    ∃ repeated inspected unreferenced,
      grammar.warnings start =
        (repeated.map fun name => .repeated name (grammar.names.count name))
          ++ inspected.flatten ++ unreferenced.map .unreferenced ∧
      (∀ name, name ∈ repeated ↔ 1 < grammar.names.count name) ∧ grammar.InOrder repeated ∧
      List.Forall₂ (fun (production, index) found => grammar.Inspected index production found)
        grammar.productions.zipIdx inspected ∧
      (∀ name, name ∈ unreferenced ↔ name ∈ grammar.names ∧ name ≠ start ∧ ¬ grammar.Refers name) ∧
      grammar.InOrder unreferenced := by
  refine ⟨grammar.survey_exact start, grammar.warnings_nil_iff start,
    grammar.defined.filter fun name => 1 < grammar.names.count name,
    grammar.productions.mapIdx grammar.productionWarnings,
    grammar.defined.filter fun name => name ≠ start && !grammar.references.contains name,
    ?_, fun name => ?_, in_order_filter _ _, ?_, fun name => ?_, in_order_filter _ _⟩
  · rw [← repeated_warnings_exact]
    rfl
  · rw [List.mem_filter, mem_defined_iff, decide_eq_true_iff, and_iff_right_iff_imp]
    exact fun again => List.count_pos_iff.mp (Nat.zero_lt_of_lt again)
  · rw [List.mapIdx_eq_zipIdx_map, List.forall₂_map_right_iff, List.forall₂_same]
    exact fun entry _ => grammar.inspected_iff.mpr rfl
  · simp [mem_defined_iff, refers_iff]

end Grammar

end GrammarPage
