import GrammarPage.Proofs.Layout.Ended

/-!
Where a sequence goes on behind an indent. Two spaces are put in front of an element if the one before it ends in
a token that reads as an indent. No element begins with two such spaces, so the stream tells where they were put.
-/

namespace GrammarPage

/-- What goes on with a sequence behind an indent. -/
def Item.continuation : Item := plain "  "

namespace Tree

/-- Something is shown before all else, and it is no continuation. -/
def BeginsAnew (items : List Item) : Prop := ∃ item behind, items = item :: behind ∧ item ≠ Item.continuation

theorem begins_grouped (grouped : Bool) {items : List Item} (anew : BeginsAnew items) :
    BeginsAnew (if grouped then Item.parenthesized items else items) := by
  cases grouped with
  | false => exact anew
  | true => exact ⟨Item.plain "( ", _, rfl, by decide⟩

theorem begins_append {items : List Item} (anew : BeginsAnew items) (more : List Item) :
    BeginsAnew (items ++ more) := by
  obtain ⟨item, behind, rfl, other⟩ := anew
  exact ⟨item, behind ++ more, rfl, other⟩

theorem begins_items (tree : Tree) : BeginsAnew tree.items := by
  induction tree with
  | leaf kind text trivia =>
      exact ⟨_, _, rfl, by cases kind <;> simp [Item.continuation, Item.plain, Leaf.style]⟩
  | repeated repetition child trivia ih => exact begins_append (begins_grouped child.isGroup ih) _
  | choice first rest trivia ihFirst ihRest => exact begins_append (begins_append ihFirst _) _
  | sequence first rest trivia ihFirst ihRest =>
      exact begins_append (begins_append (begins_grouped first.isChoice ihFirst) _) _

/-- Elements as a sequence shows them. Those that call for it have a continuation behind them, the last apart. -/
def continued (calls : Tree → Bool) : List Tree → List Item
  | [] => []
  | [tree] => tree.asElement tree.items
  | tree :: next :: rest =>
      tree.asElement tree.items ++ (if calls tree then [Item.continuation] else [])
        ++ continued calls (next :: rest)

/-- What calls for a continuation. -/
def calling (tree : Tree) : Bool := endsInIndent (tree.asElement tree.items)

theorem calling_iff (tree : Tree) :
    tree.calling = true ↔ tree.isChoice = false ∧ (EndsBroken tree.items ∨ EndsInTab tree.items) := by
  rw [calling, asElement]
  cases tree.isChoice with
  | true =>
      have closed : endsInIndent (Item.parenthesized tree.items) = false := by
        rw [endsInIndent, Item.parenthesized, List.getLast?_concat]
        rfl
      simp [closed]
  | false => simp [ends_in_indent_iff]

theorem continued_elements (first : Tree) (rest : List Tree) :
    first.asElement first.items ++ elementItems first.calling rest = continued calling (first :: rest) := by
  induction rest generalizing first with
  | nil => exact List.append_nil _
  | cons next rest ih =>
      rw [continued, elementItems, List.append_assoc, List.append_assoc, ← ih next]
      rfl

theorem sequence_continued (first : Tree) (rest : List Tree) (trivia : Trivia) :
    items (.sequence first rest trivia) = continued calling (first :: rest) ++ trivia.items := by
  rw [← continued_elements]
  rfl

theorem continued_head (calls : Tree → Bool) (tree : Tree) (rest : List Tree) :
    (continued calls (tree :: rest)).head? ≠ some Item.continuation := by
  obtain ⟨item, behind, shown, other⟩ : BeginsAnew (tree.asElement tree.items) :=
    begins_grouped tree.isChoice tree.begins_items
  cases rest with
  | nil => simpa [continued, shown] using other
  | cons next rest => simpa [continued, shown] using other

/-- Since no element begins with a continuation, the stream tells which elements have one behind them. -/
theorem continued_inj {calls others : Tree → Bool} {trees : List Tree} :
    continued calls trees = continued others trees ↔ ∀ tree ∈ trees.dropLast, calls tree = others tree := by
  induction trees with
  | nil => simp [continued]
  | cons tree rest ih =>
      cases rest with
      | nil => simp [continued]
      | cons next rest =>
          rw [List.dropLast_cons_cons, List.forall_mem_cons, ← ih, continued, continued, List.append_assoc,
            List.append_assoc, List.append_cancel_left_eq]
          have apart : ∀ calls others : Tree → Bool,
              [Item.continuation] ++ continued calls (next :: rest) ≠ continued others (next :: rest) := by
            intro calls others same
            exact continued_head others next rest (by rw [← same]; rfl)
          cases calls tree with
          | true =>
              cases others tree with
              | true => simp
              | false => simpa using apart calls others
          | false =>
              cases others tree with
              | true => simpa using (apart others calls).symm
              | false => simp

end Tree

/-- Continuations stand behind a broken line only. -/
def Continues (items : List Item) : Prop :=
  ∀ before after, items = before ++ Item.continuation :: after → EndsBroken before

section Continues
variable {left right items : List Item}

theorem continues_free (free : Item.continuation ∉ items) : Continues items := by
  intro before after cut
  exact absurd (cut ▸ List.mem_append_right _ List.mem_cons_self) free

theorem continues_append (first : Continues left) (second : Continues right) : Continues (left ++ right) := by
  intro before after cut
  rcases List.append_eq_append_iff.mp cut with ⟨between, rfl, inRight⟩ | ⟨between, rfl, inLeft⟩
  · exact (second between after inRight).trans (List.suffix_append _ _)
  · cases between with
    | nil =>
        -- A continuation has a broken line behind it, so none begins the second part.
        have start := second [] after inLeft.symm
        exact absurd start.length_le (by decide)
    | cons item between =>
        obtain ⟨rfl, -⟩ : Item.continuation = item ∧ after = between ++ right := by simpa using inLeft
        exact first before between rfl

theorem continues_behind (first : Continues left) (broken : EndsBroken left) :
    Continues (left ++ [Item.continuation]) := by
  intro before after cut
  rcases List.eq_nil_or_concat after with rfl | ⟨more, last, rfl⟩
  · obtain ⟨rfl, -⟩ := List.append_inj' cut rfl
    exact broken
  · have inside : left = before ++ Item.continuation :: more := by
      have parts : left ++ [Item.continuation] = (before ++ Item.continuation :: more) ++ [last] := by
        simpa using cut
      exact (List.append_inj' parts rfl).1
    exact first before more inside

theorem continues_token {token : Token} (other : Item.token token ≠ Item.continuation)
    (later : Continues items) : Continues (.token token :: items) :=
  have alone : Continues [.token token] := continues_free (by simpa using other.symm)
  continues_append alone later

theorem continues_grouped (grouped : Bool) (inner : Continues items) :
    Continues (if grouped then Item.parenthesized items else items) := by
  cases grouped with
  | false => exact inner
  | true =>
      exact continues_token (by decide) (continues_append inner (continues_free (by decide)))

end Continues

theorem Trivia.items_free (trivia : Trivia) : Item.continuation ∉ trivia.items := by
  rw [Trivia.items_exact]
  intro member
  rcases List.mem_append.mp member with remark | flagged
  · obtain ⟨text, same⟩ := trivia.remarks_comment _ remark
    simp [Item.continuation, Item.plain, Item.comment] at same
  · split at flagged
    · exact absurd flagged (by decide)
    · cases flagged

namespace Tree

theorem continues_alternatives {trees : List Tree} (each : ∀ tree ∈ trees, Continues tree.items) :
    Continues (alternativeItems trees) := by
  induction trees with
  | nil => exact continues_free (by simp [alternativeItems])
  | cons tree rest ih =>
      obtain ⟨first, later⟩ := List.forall_mem_cons.mp each
      exact continues_token (by decide) (continues_append first (ih later))

theorem continues_elements {calls : Tree → Bool} {trees : List Tree}
    (each : ∀ tree ∈ trees, Continues tree.items)
    (broken : ∀ tree ∈ trees.dropLast, calls tree = true → tree.isChoice = false ∧ EndsBroken tree.items) :
    Continues (continued calls trees) := by
  induction trees with
  | nil => exact continues_free (by simp [continued])
  | cons tree rest ih =>
      obtain ⟨first, later⟩ := List.forall_mem_cons.mp each
      have shown : Continues (tree.asElement tree.items) := continues_grouped tree.isChoice first
      cases rest with
      | nil => exact shown
      | cons next rest =>
          rw [List.dropLast_cons_cons] at broken
          obtain ⟨here, behind⟩ := List.forall_mem_cons.mp broken
          rw [continued]
          apply continues_append _ (ih later behind)
          split
          · rename_i called
            obtain ⟨bare, ended⟩ := here called
            rw [asElement, bare, if_neg Bool.false_ne_true] at shown ⊢
            exact continues_behind shown ended
          · rwa [List.append_nil]

/-- Elements with another behind them. A choice among them stands in parentheses, and what it ends in is inside. -/
def TabFree (trees : List Tree) : Prop :=
  ∀ element ∈ trees.dropLast, element.isChoice = false → ¬ EndsInTab element.items

theorem continues_items {tree : Tree}
    (free : ∀ first rest trivia, .sequence first rest trivia ∈ tree.walk → TabFree (first :: rest)) :
    Continues tree.items := by
  induction tree using induct_children with
  | node tree ih =>
      have each : ∀ child ∈ tree.children, Continues child.items := fun child member =>
        ih child member fun first rest trivia below => free first rest trivia (walk_child member below)
      have behind := continues_free tree.trivia.items_free
      cases tree with
      | leaf kind text trivia =>
          exact continues_token (by cases kind <;> simp [Item.continuation, Item.plain, Leaf.style]) behind
      | repeated repetition child trivia =>
          have operand := continues_grouped child.isGroup (each child (by simp [children]))
          exact continues_append operand (continues_token (by cases repetition <;> decide) behind)
      | choice first rest trivia =>
          obtain ⟨here, later⟩ := List.forall_mem_cons.mp each
          exact continues_append (continues_append here (continues_alternatives later)) behind
      | sequence first rest trivia =>
          rw [sequence_continued]
          refine continues_append (continues_elements each fun element inside called => ?_) behind
          obtain ⟨bare, broken | tab⟩ := element.calling_iff.mp called
          · exact ⟨bare, broken⟩
          · exact absurd tab (free first rest trivia (walk_self _) element inside bare)

section Within

theorem infix_grouped (grouped : Bool) (items : List Item) :
    items <:+: if grouped then Item.parenthesized items else items := by
  cases grouped with
  | false => exact List.infix_refl items
  | true => exact ⟨[Item.plain "( "], [Item.plain " )"], rfl⟩

theorem infix_alternatives {trees : List Tree} {tree : Tree} (member : tree ∈ trees) :
    tree.items <:+: alternativeItems trees := by
  induction trees with
  | nil => cases member
  | cons first rest ih =>
      rw [alternativeItems, List.cons_append]
      apply List.infix_cons
      rcases List.mem_cons.mp member with rfl | later
      · exact (List.prefix_append _ _).isInfix
      · exact (ih later).trans (List.suffix_append _ _).isInfix

theorem infix_continued {calls : Tree → Bool} {trees : List Tree} {tree : Tree} (member : tree ∈ trees) :
    tree.items <:+: continued calls trees := by
  induction trees with
  | nil => cases member
  | cons first rest ih =>
      have shown := infix_grouped first.isChoice first.items
      cases rest with
      | nil =>
          obtain rfl := List.mem_singleton.mp member
          exact shown
      | cons next rest =>
          rw [continued]
          rcases List.mem_cons.mp member with rfl | later
          · exact shown.trans ((List.prefix_append _ _).trans (List.prefix_append _ _)).isInfix
          · exact (ih later).trans (List.suffix_append _ _).isInfix

/-- What calls for a continuation has it behind it. -/
theorem continued_within {calls : Tree → Bool} {trees : List Tree} {tree : Tree}
    (member : tree ∈ trees.dropLast) (called : calls tree = true) :
    tree.asElement tree.items ++ [Item.continuation] <:+: continued calls trees := by
  induction trees with
  | nil => cases member
  | cons first rest ih =>
      cases rest with
      | nil => cases member
      | cons next rest =>
          rw [continued]
          rw [List.dropLast_cons_cons] at member
          rcases List.mem_cons.mp member with rfl | later
          · rw [called, if_pos rfl]
            exact (List.prefix_append _ _).isInfix
          · exact (ih later).trans (List.suffix_append _ _).isInfix

theorem infix_child {tree child : Tree} (member : child ∈ tree.children) : child.items <:+: tree.items := by
  cases tree with
  | leaf kind text trivia => cases member
  | repeated repetition only trivia =>
      obtain rfl := List.mem_singleton.mp member
      exact (infix_grouped child.isGroup child.items).trans (List.prefix_append _ _).isInfix
  | choice first rest trivia =>
      rw [items, List.append_assoc]
      rcases List.mem_cons.mp member with rfl | later
      · exact (List.prefix_append _ _).isInfix
      · exact (infix_alternatives later).trans
          ((List.prefix_append _ _).isInfix.trans (List.suffix_append _ _).isInfix)
  | sequence first rest trivia =>
      rw [sequence_continued]
      exact (infix_continued member).trans (List.prefix_append _ _).isInfix

theorem infix_walk {tree node : Tree} (member : node ∈ tree.walk) : node.items <:+: tree.items := by
  induction tree using induct_children with
  | node tree ih =>
      rw [walk_exact] at member
      rcases List.mem_cons.mp member with rfl | below
      · exact List.infix_refl _
      · obtain ⟨child, inside, found⟩ := List.mem_flatMap.mp below
        exact (ih child inside found).trans (infix_child inside)

end Within

/-- In a line that goes on, an element with another behind it ends in a tab only if it is a choice. -/
theorem tab_free_of_continues {tree : Tree} (continues : Continues tree.items) {first : Tree} {rest : List Tree}
    {trivia : Trivia} (member : .sequence first rest trivia ∈ tree.walk) : TabFree (first :: rest) := by
  intro element inside bare tab
  have within := continued_within inside (element.calling_iff.mpr ⟨bare, .inr tab⟩)
  rw [asElement, bare, if_neg Bool.false_ne_true] at within
  have inSequence : continued calling (first :: rest) <:+: items (.sequence first rest trivia) := by
    rw [sequence_continued]
    exact (List.prefix_append _ _).isInfix
  obtain ⟨before, after, whole⟩ := within.trans (inSequence.trans (infix_walk member))
  have broken : EndsBroken (before ++ element.items) := continues _ after (by rw [← whole]; simp)
  obtain ⟨style, other, last⟩ := tab
  have shows : element.items ≠ [] := by
    rintro none
    simp [none] at last
  exact broken_not_tab broken ⟨style, other, (List.getLast?_append_of_ne_nil before shows).trans last⟩

/-- A sequence has a continuation in front of an element exactly if the element before it is no choice and ends
in a broken line, or in a tab that its last name or space shows. So continuations stand behind broken lines only,
exactly if in no sequence an element that another follows ends in such a tab. -/
theorem continuations_exact (tree : Tree) :
    (∀ first rest trivia, .sequence first rest trivia ∈ tree.walk → ∀ calls : Tree → Bool,
      (Tree.sequence first rest trivia).items = continued calls (first :: rest) ++ trivia.items ↔
        ∀ element ∈ (first :: rest).dropLast, calls element = true ↔
          element.isChoice = false ∧ (EndsBroken element.items ∨ EndsInTab element.items)) ∧
    (∀ node : Tree, (EndsBroken node.items ↔ node.closing.trivia.newline = true) ∧
      (EndsInTab node.items ↔ node.closing.ShowsTab)) ∧
    (Continues tree.items ↔
      ∀ first rest trivia, .sequence first rest trivia ∈ tree.walk → TabFree (first :: rest)) := by
  refine ⟨fun first rest trivia _ calls => ?_, fun node => ⟨node.ends_broken_iff, node.ends_in_tab_iff⟩, ?_⟩
  · rw [sequence_continued, List.append_cancel_right_eq, eq_comm, continued_inj]
    refine forall₂_congr fun element _ => ?_
    rw [← calling_iff, Bool.eq_iff_iff]
  · exact ⟨fun continues first rest trivia => tab_free_of_continues continues, continues_items⟩

theorem continuations_exact_flagged :
    let flagged : Tree := .leaf .reference "a" ⟨" ", none, true⟩
    let grouped : Tree := .choice (.leaf .terminal "b" ⟨"", none, true⟩) [] .bare
    let spaced : Tree := .leaf .extendedTerminal "c" ⟨"\t", none, false⟩
    let last : Tree := .leaf .reference "d" .bare
    let tree : Tree := .repeated .oneOrMore (.sequence flagged [grouped, spaced, last] .bare) .bare
    (.sequence flagged [grouped, spaced, last] .bare ∈ tree.walk) ∧
      (Tree.sequence flagged [grouped, spaced, last] .bare).items =
        flagged.items ++ [Item.continuation] ++ Item.parenthesized grouped.items ++ spaced.items
          ++ [Item.continuation] ++ last.items ∧
      ¬ Continues tree.items := by
  intro flagged grouped spaced last tree
  have member : .sequence flagged [grouped, spaced, last] .bare ∈ tree.walk := by decide
  obtain ⟨elements, ends, onward⟩ := continuations_exact tree
  have tab : EndsInTab spaced.items := (ends spaced).2.mpr ⟨rfl, rfl, .inl rfl⟩
  have calls : ∀ element ∈ [flagged, grouped, spaced], (!element.isChoice) = true ↔
      element.isChoice = false ∧ (EndsBroken element.items ∨ EndsInTab element.items) := by
    have broken : EndsBroken flagged.items := (ends flagged).1.mpr rfl
    rintro element inside
    rw [Bool.not_eq_true', iff_self_and]
    intro bare
    simp only [List.mem_cons, List.not_mem_nil, or_false] at inside
    rcases inside with rfl | rfl | rfl
    · exact .inl broken
    · cases bare
    · exact .inr tab
  refine ⟨member, ?_, fun continues => ?_⟩
  · exact (elements flagged [grouped, spaced, last] .bare member _).mpr calls
  · exact onward.mp continues _ _ _ member spaced (by decide) rfl tab

/-- A space that is a tab is taken for an indent, and two more spaces are put in the middle of the line. -/
theorem tab_taken_for_indent :
    let spaced : Tree := .leaf .reference "a" ⟨"\t", none, false⟩
    let tree : Tree := .sequence spaced [.leaf .reference "b" .bare] .bare
    tree.items = [.token ⟨"a", .production⟩, Item.comment "\t", Item.continuation, .token ⟨"b", .production⟩] ∧
      ¬ EndsBroken spaced.items ∧ ¬ Continues tree.items := by
  intro spaced tree
  have shown : tree.items =
      [.token ⟨"a", .production⟩, Item.comment "\t", Item.continuation, .token ⟨"b", .production⟩] := rfl
  refine ⟨shown, fun broken => ?_, fun continues => ?_⟩
  · exact absurd (spaced.ends_broken_iff.mp broken) (by decide)
  · have broken := continues [.token ⟨"a", .production⟩, Item.comment "\t"] _ shown
    exact absurd (last_of_broken broken) (by decide)

end Tree

end GrammarPage
