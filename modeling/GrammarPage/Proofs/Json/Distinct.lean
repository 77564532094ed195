import GrammarPage.Json.Reader

/-!
What the reader delivers. However often a text repeats a name within an object, the value read has each name
once, at every depth: a member that is put again takes the place of the old one.
-/

namespace GrammarPage.Json

/-- A value whose objects, at every depth, give each name once. -/
inductive Distinct : Json → Prop where
  | null : Distinct .null
  | bool (value : Bool) : Distinct (.bool value)
  | int (value : Int) : Distinct (.int value)
  | real (value : Binary64) : Distinct (.real value)
  | str (value : Text) : Distinct (.str value)
  | list {items : List Json} (each : ∀ item ∈ items, Distinct item) : Distinct (.list items)
  | object {members : List (Text × Json)} (names : (members.map Prod.fst).Nodup)
      (each : ∀ member ∈ members, Distinct member.2) : Distinct (.object members)

/-- Members of an object whose value is distinct. -/
def DistinctMembers (members : List (Text × Json)) : Prop :=
  (members.map Prod.fst).Nodup ∧ ∀ member ∈ members, member.2.Distinct

theorem distinct_members_nil : DistinctMembers [] := ⟨List.nodup_nil, fun _ member => absurd member List.not_mem_nil⟩

theorem Distinct.members {members : List (Text × Json)} (distinct : (Json.object members).Distinct) :
    DistinctMembers members := by
  cases distinct with
  | object names each => exact ⟨names, each⟩

theorem mem_of_member {name : Text} {value : Json} {members : List (Text × Json)}
    (found : member? name members = some value) : (name, value) ∈ members := by
  induction members with
  | nil => cases found
  | cons entry rest ih =>
      obtain ⟨key, first⟩ := entry
      rw [member?] at found
      split at found
      · subst key
        cases found
        exact List.mem_cons_self
      · exact List.mem_cons_of_mem _ (ih found)

theorem member_iff {name : Text} {value : Json} {members : List (Text × Json)}
    (names : (members.map Prod.fst).Nodup) : member? name members = some value ↔ (name, value) ∈ members := by
  refine ⟨mem_of_member, fun inside => ?_⟩
  induction members with
  | nil => cases inside
  | cons entry rest ih =>
      obtain ⟨key, first⟩ := entry
      obtain ⟨new, later⟩ := List.nodup_cons.mp names
      rw [member?]
      rcases List.mem_cons.mp inside with same | further
      · cases same
        rw [if_pos rfl]
      · have other : key ≠ name := by
          rintro rfl
          exact new (List.mem_map.mpr ⟨_, further, rfl⟩)
        rw [if_neg other, ih later further]

/-- Looking into a value leads to nothing that is not distinct. -/
theorem Distinct.get_some {document value : Json} (distinct : document.Distinct) {name : Text}
    (found : document.get? name = some value) : value.Distinct := by
  cases document with
  | object members => exact distinct.members.2 _ (mem_of_member found)
  | _ => cases found

theorem Distinct.get {document : Json} (distinct : document.Distinct) (name : Text) :
    (document.get name).Distinct := by
  rw [Json.get]
  cases found : document.get? name with
  | none => exact .null
  | some value => exact distinct.get_some found

theorem names_put (name : Text) (value : Json) (members : List (Text × Json)) :
    (putMember name value members).map Prod.fst =
      if name ∈ members.map Prod.fst then members.map Prod.fst else members.map Prod.fst ++ [name] := by
  induction members with
  | nil => rfl
  | cons entry rest ih =>
      obtain ⟨key, old⟩ := entry
      by_cases same : key = name
      · simp [putMember, same]
      · rw [putMember, if_neg same, List.map_cons, ih]
        by_cases later : name ∈ rest.map Prod.fst <;> simp [later, Ne.symm same]

theorem mem_put {name : Text} {value : Json} {members : List (Text × Json)} {member : Text × Json}
    (inside : member ∈ putMember name value members) : member ∈ members ∨ member.2 = value := by
  induction members with
  | nil => exact .inr (by rw [List.mem_singleton.mp inside])
  | cons entry rest ih =>
      obtain ⟨key, old⟩ := entry
      rw [putMember] at inside
      split at inside
      · rcases List.mem_cons.mp inside with rfl | later
        · exact .inr rfl
        · exact .inl (List.mem_cons_of_mem _ later)
      · rcases List.mem_cons.mp inside with rfl | later
        · exact .inl List.mem_cons_self
        · exact (ih later).imp_left (List.mem_cons_of_mem _)

theorem distinct_put {members : List (Text × Json)} (distinct : DistinctMembers members) (name : Text)
    {value : Json} (new : value.Distinct) : DistinctMembers (putMember name value members) := by
  constructor
  · rw [names_put]
    split
    · exact distinct.1
    · rename_i absent
      refine List.nodup_append.mpr ⟨distinct.1, by simp, ?_⟩
      rintro key known other single rfl
      exact absent (List.mem_singleton.mp single ▸ known)
  · intro member inside
    rcases mem_put inside with old | same
    · exact distinct.2 member old
    · exact same ▸ new

/-! The values that a state of the reader holds. -/

def Frame.Distinct : Frame → Prop
  | .list items => ∀ item ∈ items, item.Distinct
  | .member members _ => DistinctMembers members

def State.Distinct : State → Prop
  | .awaitValue frames | .awaitItem frames | .awaitFirstName frames => ∀ frame ∈ frames, frame.Distinct
  | .awaitName members frames | .awaitColon members _ frames | .afterMember members frames =>
      DistinctMembers members ∧ ∀ frame ∈ frames, frame.Distinct
  | .afterItem items frames => (∀ item ∈ items, item.Distinct) ∧ ∀ frame ∈ frames, frame.Distinct
  | .finished document => document.Distinct

/-- A token brings no value of its own but a distinct one. -/
def Token.Distinct : Token → Prop
  | .scalar value => value.Distinct
  | _ => True

section Steps
variable {frames : List Frame} {token : Token} {state next : State}

theorem deliver_distinct {value : Json} (new : value.Distinct) (held : ∀ frame ∈ frames, frame.Distinct) :
    (State.deliver value frames).Distinct := by
  cases frames with
  | nil => exact new
  | cons frame frames =>
      obtain ⟨first, later⟩ := List.forall_mem_cons.mp held
      cases frame with
      | list items => exact ⟨List.forall_mem_append.mpr ⟨first, by simpa using new⟩, later⟩
      | member members name => exact ⟨distinct_put first name new, later⟩

theorem numeral_distinct (numeral : Numeral) : numeral.value.Distinct := by
  rw [Numeral.value]
  split
  · exact .int _
  · exact .real _

theorem value_step_distinct (brings : token.Distinct) (held : ∀ frame ∈ frames, frame.Distinct)
    (step : State.valueStep frames token = .ok next) : next.Distinct := by
  cases token <;> simp only [State.valueStep, reduceCtorEq] at step
  case scalar value =>
    cases step
    exact deliver_distinct brings held
  case str value =>
    cases step
    exact deliver_distinct (.str value) held
  case numeral numeral =>
    rw [State.numeral] at step
    split at step
    · cases step
    · cases step
      exact deliver_distinct (numeral_distinct numeral) held
  case openList | openObject =>
    cases step
    exact held

theorem name_step_distinct {members : List (Text × Json)} (given : DistinctMembers members)
    (held : ∀ frame ∈ frames, frame.Distinct) (step : State.nameStep members frames token = .ok next) :
    next.Distinct := by
  cases token <;> simp only [State.nameStep, reduceCtorEq] at step
  case str name =>
    cases step
    exact ⟨given, held⟩

theorem opened_list (held : ∀ frame ∈ frames, frame.Distinct) :
    ∀ frame ∈ Frame.list [] :: frames, frame.Distinct :=
  List.forall_mem_cons.mpr ⟨fun _ member => absurd member List.not_mem_nil, held⟩

theorem step_distinct (brings : token.Distinct) (held : state.Distinct) (step : state.step token = .ok next) :
    next.Distinct := by
  cases state with
  | awaitValue frames => exact value_step_distinct brings held step
  | awaitItem frames =>
      by_cases closes : token = .closeList
      · subst closes
        cases step
        exact deliver_distinct (.list fun _ member => absurd member List.not_mem_nil) held
      · refine value_step_distinct brings (opened_list held) ?_
        cases token with
        | closeList => exact absurd rfl closes
        | _ => exact step
  | awaitFirstName frames =>
      by_cases closes : token = .closeObject
      · subst closes
        cases step
        exact deliver_distinct (.object distinct_members_nil.1 distinct_members_nil.2) held
      · refine @name_step_distinct frames token next [] distinct_members_nil held ?_
        cases token with
        | closeObject => exact absurd rfl closes
        | _ => exact step
  | awaitName members frames => exact name_step_distinct held.1 held.2 step
  | awaitColon members name frames =>
      cases token <;> cases step
      exact List.forall_mem_cons.mpr held
  | afterItem items frames =>
      cases token <;> cases step
      · exact deliver_distinct (.list held.1) held.2
      · exact List.forall_mem_cons.mpr held
  | afterMember members frames =>
      cases token <;> cases step
      · exact deliver_distinct (.object held.1.1 held.1.2) held.2
      · exact held
  | finished document => cases token <;> cases step

theorem run_distinct {lexemes : List Lexeme} (bring : ∀ lexeme ∈ lexemes, lexeme.token.Distinct)
    (held : state.Distinct) {document : Json} (ran : run state lexemes = .ok document) : document.Distinct := by
  induction lexemes generalizing state with
  | nil =>
      cases state <;> cases ran
      exact held
  | cons lexeme rest ih =>
      obtain ⟨first, later⟩ := List.forall_mem_cons.mp bring
      have stepped : ∃ next, state.step lexeme.token = .ok next ∧ run next rest = .ok document := by
        cases done : state.step lexeme.token with
        | ok next => exact ⟨next, rfl, by cases state <;> simpa only [run, done] using ran⟩
        | error fault => cases state <;> simp [run, done] at ran
      obtain ⟨next, step, further⟩ := stepped
      exact ih later (step_distinct first held step) further

end Steps

theorem next_token_distinct (c : Char) (rest : List Char) : (nextToken c rest).1.Distinct := by
  have keyword : ∀ found, scanKeyword (c :: rest) = some found → found.1.Distinct := by
    intro found taken
    obtain ⟨keyword, known, matched⟩ := List.exists_of_findSome?_eq_some taken
    obtain ⟨after, -, rfl⟩ := Option.map_eq_some_iff.mp matched
    simp only [keywords, List.mem_cons, List.not_mem_nil, or_false] at known
    rcases known with rfl | rfl | rfl | rfl | rfl | rfl
    · exact .null
    · exact .bool true
    · exact .bool false
    · exact .real _
    · exact .real _
    · exact .real _
  rw [nextToken]
  split
  · rename_i token known
    simp only [punctuation?] at known
    grind [Token.Distinct]
  · split
    · rw [scanQuoted]
      split <;> trivial
    · rw [scanWord]
      split
      · exact keyword _ ‹_›
      · split <;> trivial

theorem lexemes_distinct (text : List Char) : ∀ lexeme ∈ lexemes text, lexeme.token.Distinct := by
  fun_induction lexemes text with
  | case1 => exact fun _ member => absurd member List.not_mem_nil
  | case2 _ _ _ ih => exact ih
  | case3 c rest _ ih => exact List.forall_mem_cons.mpr ⟨next_token_distinct c rest, ih⟩

theorem read_distinct {text : List Char} {document : Json} (read : Json.read text = .ok document) :
    document.Distinct := by
  rw [Json.read] at read
  split at read
  · cases read
  · split at read
    · cases read
      have start : (State.awaitValue []).Distinct := fun _ member => absurd member List.not_mem_nil
      exact run_distinct (lexemes_distinct text) start ‹_›
    · cases read

end GrammarPage.Json
