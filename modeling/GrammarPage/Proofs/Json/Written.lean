import GrammarPage.Json.Reader
import GrammarPage.Proofs.Json.Quoted

/-!
Reading what was written. A text is told by the state in which it leaves the reader, whatever follows it;
a written value takes a state that waits for a value to the state in which the value is delivered.
-/

namespace GrammarPage.Json

/-- A value without numbers and without halves of pairs, whose objects give each name once. -/
inductive Plain : Json → Prop where
  | null : Plain .null
  | bool (value : Bool) : Plain (.bool value)
  | str {value : Text} (whole : value.Whole) : Plain (.str value)
  | list {items : List Json} (each : ∀ item ∈ items, Plain item) : Plain (.list items)
  | object {members : List (Text × Json)} (distinct : (members.map Prod.fst).Nodup)
      (whole : ∀ member ∈ members, member.1.Whole) (each : ∀ member ∈ members, Plain member.2) :
      Plain (.object members)

/-- Whatever follows a text, reading it takes one state to the other. -/
def Takes (text : List Char) (before after : State) : Prop :=
  ∀ rest, run before (lexemes (text ++ rest)) = run after (lexemes rest)

namespace Takes
variable {left right text : List Char} {before middle after : State} {c : Char} {read : Token}

theorem nil (state : State) : Takes [] state state := fun _ => rfl

theorem append (first : Takes left before middle) (second : Takes right middle after) :
    Takes (left ++ right) before after := by
  intro rest
  rw [List.append_assoc, first, second]

theorem space (blank : isSpace c = true) (state : State) : Takes [c] state state := by
  intro rest
  rw [List.singleton_append, lexemes, if_pos blank]

theorem spaces (blank : ∀ c ∈ text, isSpace c = true) (state : State) : Takes text state state := by
  induction text with
  | nil => exact .nil state
  | cons c rest ih =>
      exact (space (blank c List.mem_cons_self) state).append
        (ih fun other member => blank other (List.mem_cons_of_mem _ member))

theorem token (solid : isSpace c = false) (next : ∀ rest, nextToken c (text ++ rest) = (read, rest))
    (step : before.step read = .ok after) : Takes (c :: text) before after := by
  intro rest
  rw [List.cons_append, lexemes, if_neg (by simp [solid]), next]
  cases before <;> simp only [run, step]

theorem mark (solid : isSpace c = false) (known : punctuation? c = some read)
    (step : before.step read = .ok after) : Takes [c] before after := by
  refine token solid (fun rest => ?_) step
  simp only [nextToken, known]
  rfl

theorem quotation {value : Text} (whole : value.Whole) (step : before.step (.str value) = .ok after) :
    Takes (quoted value) before after := by
  have shape : quoted value = '\x22' :: (value.toList.flatMap escapedPoint ++ ['\x22']) := rfl
  rw [shape]
  refine token (by decide) (fun rest => ?_) step
  rw [List.append_assoc, List.singleton_append]
  exact next_token_quoted whole rest

theorem line_break (depth : Nat) (state : State) : Takes (lineBreak depth) state state := by
  refine spaces (fun c member => ?_) state
  rcases List.mem_cons.mp member with rfl | later
  · rfl
  · obtain rfl := List.eq_of_mem_replicate later
    rfl

end Takes

/-- A state in which a value may come next, for the frames given. A list that has just been opened may also
be closed. -/
def State.Awaits (state : State) (frames : List Frame) : Prop :=
  ∀ token, token ≠ .closeList → state.step token = State.valueStep frames token

theorem awaits_value (frames : List Frame) : (State.awaitValue frames).Awaits frames := fun _ _ => rfl

theorem awaits_item (frames : List Frame) : (State.awaitItem frames).Awaits (.list [] :: frames) := by
  intro token other
  cases token with
  | closeList => exact absurd rfl other
  | _ => rfl

/-- Wherever a value is awaited, the written value is read and delivered. -/
def ReadsBack (value : Json) : Prop :=
  ∀ depth state frames, state.Awaits frames → Takes (written depth value) state (State.deliver value frames)

section Rest
variable (depth : Nat) (frames : List Frame)

theorem takes_items {items : List Json} (each : ∀ item ∈ items, ReadsBack item) (done : List Json) :
    Takes (writtenItems depth items) (.afterItem done frames) (.afterItem (done ++ items) frames) := by
  induction items generalizing done with
  | nil =>
      rw [List.append_nil]
      exact .nil _
  | cons item rest ih =>
      have comma : Takes [','] (.afterItem done frames) (.awaitValue (.list done :: frames)) :=
        .mark rfl rfl rfl
      have value := each item List.mem_cons_self depth _ _ (awaits_value (.list done :: frames))
      have later := ih (fun other member => each other (List.mem_cons_of_mem _ member)) (done ++ [item])
      rw [List.append_assoc, List.singleton_append] at later
      exact ((comma.append (.line_break depth _)).append value).append later

theorem put_new {name : Text} {members : List (Text × Json)} (new : name ∉ members.map Prod.fst)
    (value : Json) : putMember name value members = members ++ [(name, value)] := by
  induction members with
  | nil => rfl
  | cons entry rest ih =>
      obtain ⟨key, old⟩ := entry
      have other : key ≠ name := fun same => new (by simp [same])
      rw [putMember, if_neg other, ih (fun member => new (List.mem_cons_of_mem _ member))]
      rfl

theorem takes_member {name : Text} (whole : name.Whole) {value : Json} (reads : ReadsBack value)
    {done : List (Text × Json)} (new : name ∉ done.map Prod.fst) {before : State}
    (named : before.step (.str name) = .ok (.awaitColon done name frames)) :
    Takes (quoted name ++ ':' :: ' ' :: written depth value) before
      (.afterMember (done ++ [(name, value)]) frames) := by
  have colon : Takes [':'] (.awaitColon done name frames) (.awaitValue (.member done name :: frames)) :=
    .mark rfl rfl rfl
  have read := reads depth _ _ (awaits_value (.member done name :: frames))
  rw [State.deliver, put_new new] at read
  exact (Takes.quotation whole named).append ((colon.append (.space rfl _)).append read)

theorem takes_members {members done : List (Text × Json)} (whole : ∀ member ∈ members, member.1.Whole)
    (each : ∀ member ∈ members, ReadsBack member.2) (distinct : ((done ++ members).map Prod.fst).Nodup) :
    Takes (writtenMembers depth members) (.afterMember done frames)
      (.afterMember (done ++ members) frames) := by
  induction members generalizing done with
  | nil =>
      rw [List.append_nil]
      exact .nil _
  | cons entry rest ih =>
      obtain ⟨name, given⟩ := entry
      have comma : Takes [','] (.afterMember done frames) (.awaitName done frames) := .mark rfl rfl rfl
      have new : name ∉ done.map Prod.fst := by
        rw [List.map_append, List.map_cons] at distinct
        obtain ⟨-, -, apart⟩ := List.nodup_append.mp distinct
        exact fun member => apart name member name List.mem_cons_self rfl
      obtain ⟨wholeName, wholeRest⟩ := List.forall_mem_cons.mp whole
      have value := @takes_member depth frames name wholeName given (each _ List.mem_cons_self) done new
        (.awaitName done frames) rfl
      rw [List.append_cons] at distinct ⊢
      have later := ih wholeRest (fun other member => each other (List.mem_cons_of_mem _ member)) distinct
      simpa [writtenMembers] using ((comma.append (.line_break depth _)).append value).append later

end Rest

theorem reads_back_scalar {value : Json} {c : Char} {text : List Char} (solid : isSpace c = false)
    (shape : ∀ depth, written depth value = c :: text)
    (next : ∀ rest, nextToken c (text ++ rest) = (.scalar value, rest)) : ReadsBack value := by
  intro depth state frames awaits
  rw [shape]
  exact .token solid next (awaits _ (by simp))

theorem reads_back_list {items : List Json} (each : ∀ item ∈ items, ReadsBack item) :
    ReadsBack (.list items) := by
  intro depth state frames awaits
  have opening : Takes ['['] state (.awaitItem frames) := .mark rfl rfl (awaits _ (by simp))
  cases items with
  | nil =>
      have closing : Takes [']'] (.awaitItem frames) (State.deliver (.list []) frames) := .mark rfl rfl rfl
      exact opening.append closing
  | cons item rest =>
      have first := each item List.mem_cons_self (depth + 1) _ _ (awaits_item frames)
      have later := takes_items (depth + 1) frames
        (fun other member => each other (List.mem_cons_of_mem _ member)) [item]
      have closing : Takes [']'] (.afterItem (item :: rest) frames)
        (State.deliver (.list (item :: rest)) frames) := .mark rfl rfl rfl
      rw [written]
      exact ((((opening.append (.line_break _ _)).append first).append later).append
        (.line_break _ _)).append closing

theorem reads_back_object {members : List (Text × Json)} (distinct : (members.map Prod.fst).Nodup)
    (whole : ∀ member ∈ members, member.1.Whole) (each : ∀ member ∈ members, ReadsBack member.2) :
    ReadsBack (.object members) := by
  intro depth state frames awaits
  have opening : Takes ['\x7b'] state (.awaitFirstName frames) := .mark rfl rfl (awaits _ (by simp))
  cases members with
  | nil =>
      have closing : Takes ['\x7d'] (.awaitFirstName frames) (State.deliver (.object []) frames) :=
        .mark rfl rfl rfl
      exact opening.append closing
  | cons entry rest =>
      obtain ⟨name, value⟩ := entry
      obtain ⟨wholeName, wholeRest⟩ := List.forall_mem_cons.mp whole
      have first := @takes_member (depth + 1) frames name wholeName value (each _ List.mem_cons_self) []
        List.not_mem_nil (.awaitFirstName frames) rfl
      have later := @takes_members (depth + 1) frames rest [(name, value)] wholeRest
        (fun other member => each other (List.mem_cons_of_mem _ member)) distinct
      have closing : Takes ['\x7d'] (.afterMember ((name, value) :: rest) frames)
        (State.deliver (.object ((name, value) :: rest)) frames) := .mark rfl rfl rfl
      have all := ((((opening.append (.line_break (depth + 1) _)).append first).append later).append
        (.line_break depth _)).append closing
      simpa [written] using all

theorem reads_back {value : Json} (plain : Plain value) : ReadsBack value := by
  induction plain with
  | null => exact reads_back_scalar rfl (fun _ => rfl) (fun _ => rfl)
  | bool value =>
      cases value with
      | true => exact reads_back_scalar rfl (fun _ => rfl) (fun _ => rfl)
      | false => exact reads_back_scalar rfl (fun _ => rfl) (fun _ => rfl)
  | str whole =>
      intro depth state frames awaits
      exact .quotation whole (awaits _ (by simp))
  | list _ each => exact reads_back_list each
  | object distinct whole _ each => exact reads_back_object distinct whole each

end GrammarPage.Json
