import GrammarPage.Proofs.Layout.Independent

/-!
What a tree leaves in the stream. A node shows its own text, if it is a leaf, and its own trivia; between them
stand its children, in their order. What is shown besides is plain: parentheses, bars, marks and continuation
spaces.
-/

namespace GrammarPage

def Item.hasStyle (styles : List Style) : Item → Bool
  | .token styled => styled.style ∈ styles
  | .lineBreak => false

/-- The styles of leaves. -/
def leafStyles : List Style := [.production, .terminal, .extendedTerminal]

/-- Every line break is followed by an indent. -/
def Indented (items : List Item) : Prop :=
  ∀ before after, items = before ++ .lineBreak :: after → after.head? = some Item.indent

section Indented

theorem indented_none : Indented [] := by
  intro before after cut
  simp at cut

theorem indented_append {left right : List Item} (first : Indented left) (second : Indented right) :
    Indented (left ++ right) := by
  intro before after cut
  rcases List.append_eq_append_iff.mp cut with ⟨between, rfl, inRight⟩ | ⟨between, rfl, inLeft⟩
  · exact second between after inRight
  · -- A line break in the first part is followed there already, so none stands at its end.
    cases between with
    | nil => exact second [] after inLeft.symm
    | cons item between =>
        obtain ⟨rfl, rfl⟩ : .lineBreak = item ∧ after = between ++ right := by simpa using inLeft
        rw [List.head?_append, first before between rfl]
        rfl

theorem indented_token {token : Token} {items : List Item} (later : Indented items) :
    Indented (.token token :: items) := by
  intro before after cut
  cases before with
  | nil => simp at cut
  | cons item before => exact later before after (List.cons.inj cut).2

theorem indented_break {items : List Item} (follows : items.head? = some Item.indent)
    (later : Indented items) : Indented (.lineBreak :: items) := by
  intro before after cut
  cases before with
  | nil =>
      obtain rfl := (List.cons.inj cut).2
      exact follows
  | cons item before => exact later before after (List.cons.inj cut).2

theorem indented_grouped (grouped : Bool) {items : List Item} (inner : Indented items) :
    Indented (if grouped then Item.parenthesized items else items) := by
  cases grouped with
  | false => exact inner
  | true => exact indented_token (indented_append inner (indented_token indented_none))

end Indented

namespace Trivia

/-- What trivia says behind a node: its whitespace and its comment, unless they are empty. -/
def remarks (trivia : Trivia) : List Item :=
  (if trivia.whitespace = "" then [] else [Item.comment trivia.whitespace])
    ++ (trivia.comment.toList.filter (· ≠ ("" : Text))).map fun text => Item.comment (" //" ++ text)

theorem items_exact (trivia : Trivia) :
    trivia.items = trivia.remarks ++ if trivia.newline then [.lineBreak, Item.indent] else [] := by
  have remark : remarkItems " //" trivia.comment =
      (trivia.comment.toList.filter (· ≠ ("" : Text))).map fun text => Item.comment (" //" ++ text) := by
    rcases trivia.comment with _ | text
    · rfl
    · by_cases empty : text = "" <;> simp [remarkItems, filled, Option.filter, empty]
  rw [items, remarks, spaceItems, remark]

theorem remarks_comment (trivia : Trivia) : ∀ item ∈ trivia.remarks, ∃ text, item = Item.comment text := by
  intro item member
  rcases List.mem_append.mp member with space | remark
  · split at space
    · cases space
    · exact ⟨_, List.mem_singleton.mp space⟩
  · obtain ⟨text, -, rfl⟩ := List.mem_map.mp remark
    exact ⟨_, rfl⟩

theorem filter_comments (trivia : Trivia) :
    trivia.items.filter (Item.hasStyle [.comment]) = trivia.remarks := by
  have own : trivia.remarks.filter (Item.hasStyle [.comment]) = trivia.remarks := by
    rw [List.filter_eq_self]
    intro item member
    obtain ⟨text, rfl⟩ := trivia.remarks_comment item member
    rfl
  rw [items_exact, List.filter_append, own]
  split
  · exact List.append_nil _
  · exact List.append_nil _

theorem filter_leaves (trivia : Trivia) : trivia.items.filter (Item.hasStyle leafStyles) = [] := by
  have none : trivia.remarks.filter (Item.hasStyle leafStyles) = [] := by
    rw [List.filter_eq_nil_iff]
    intro item member
    obtain ⟨text, rfl⟩ := trivia.remarks_comment item member
    exact Bool.false_ne_true
  rw [items_exact, List.filter_append, none]
  split <;> rfl

theorem indented_items (trivia : Trivia) : Indented trivia.items := by
  have remarks : Indented trivia.remarks := by
    intro before after cut
    obtain ⟨text, other⟩ := trivia.remarks_comment .lineBreak (by simp [cut])
    cases other
  rw [items_exact]
  refine indented_append remarks ?_
  split
  · exact indented_break rfl (indented_token indented_none)
  · exact indented_none

end Trivia

namespace Tree

/-- What a leaf shows of its text. -/
def leafItem? : Tree → Option Item
  | .leaf .reference text _ => some (.token ⟨text, .production⟩)
  | .leaf .terminal text _ => some (.token ⟨quoteTerminal text, .terminal⟩)
  | .leaf .extendedTerminal text _ => some (.token ⟨text, .extendedTerminal⟩)
  | _ => none

mutual
/-- A tree and everything below it, each node after its children. -/
def postorder : Tree → List Tree
  | .leaf kind text trivia => [.leaf kind text trivia]
  | .repeated repetition child trivia => postorder child ++ [.repeated repetition child trivia]
  | .choice first rest trivia => postorder first ++ postorderAll rest ++ [.choice first rest trivia]
  | .sequence first rest trivia => postorder first ++ postorderAll rest ++ [.sequence first rest trivia]

def postorderAll : List Tree → List Tree
  | [] => []
  | tree :: rest => postorder tree ++ postorderAll rest
end

theorem postorder_all_exact (trees : List Tree) : postorderAll trees = trees.flatMap postorder := by
  induction trees with
  | nil => rfl
  | cons tree rest ih => simp [postorderAll, ih]

theorem postorder_exact (tree : Tree) : tree.postorder = tree.children.flatMap postorder ++ [tree] := by
  cases tree <;> simp [postorder, children, postorder_all_exact]

section Wanted
variable {wanted : Item → Bool} (plain : ∀ text, wanted (Item.plain text) = false)
include plain

theorem wanted_grouped (grouped : Bool) (items : List Item) :
    (if grouped then Item.parenthesized items else items).filter wanted = items.filter wanted := by
  cases grouped <;> simp [Item.parenthesized, plain]

theorem wanted_alternatives (trees : List Tree) :
    (alternativeItems trees).filter wanted = (trees.flatMap items).filter wanted := by
  induction trees with
  | nil => rfl
  | cons tree rest ih => simp [alternativeItems, plain, ih]

theorem wanted_elements (indented : Bool) (trees : List Tree) :
    (elementItems indented trees).filter wanted = (trees.flatMap items).filter wanted := by
  induction trees generalizing indented with
  | nil => rfl
  | cons tree rest ih => cases indented <;> simp [elementItems, asElement, plain, wanted_grouped plain, ih]

/-- Plain tokens apart, a node shows its text, its children and its trivia. -/
theorem wanted_node (tree : Tree) :
    tree.items.filter wanted = tree.leafItem?.toList.filter wanted
      ++ ((tree.children.flatMap items).filter wanted ++ tree.trivia.items.filter wanted) := by
  cases tree with
  | leaf kind text trivia =>
      have shown : (Tree.leaf kind text trivia).items =
          (Tree.leaf kind text trivia).leafItem?.toList ++ trivia.items := by cases kind <;> rfl
      rw [shown, List.filter_append]
      rfl
  | repeated repetition child trivia =>
      simp [items, asOperand, leafItem?, children, Tree.trivia, wanted_grouped plain, plain]
  | choice first rest trivia =>
      simp [items, leafItem?, children, Tree.trivia, wanted_alternatives plain]
  | sequence first rest trivia =>
      simp [items, asElement, leafItem?, children, Tree.trivia, wanted_grouped plain, wanted_elements plain]

end Wanted

theorem leaf_wanted (tree : Tree) :
    tree.leafItem?.toList.filter (Item.hasStyle leafStyles) = tree.leafItem?.toList := by
  rcases tree with ⟨_ | _ | _, text, trivia⟩ | _ | _ | _ <;> rfl

theorem leaf_uncommented (tree : Tree) :
    tree.leafItem?.toList.filter (Item.hasStyle [.comment]) = [] := by
  rcases tree with ⟨_ | _ | _, text, trivia⟩ | _ | _ | _ <;> rfl

/-- The leaves of a tree are shown in the order of the walk. -/
theorem leaves_shown (tree : Tree) :
    tree.items.filter (Item.hasStyle leafStyles) = tree.walk.filterMap leafItem? := by
  rw [List.filterMap_eq_flatMap_toList]
  induction tree using induct_children with
  | node tree ih =>
      rw [wanted_node (fun _ => rfl), leaf_wanted, List.filter_flatMap, List.flatMap_congr ih, walk_exact,
        List.flatMap_cons, List.flatMap_assoc, tree.trivia.filter_leaves, List.append_nil]

/-- The trivia of a tree is shown behind the trivia of its children. -/
theorem remarks_shown (tree : Tree) :
    tree.items.filter (Item.hasStyle [.comment]) = tree.postorder.flatMap (·.trivia.remarks) := by
  induction tree using induct_children with
  | node tree ih =>
      rw [wanted_node (fun _ => rfl), leaf_uncommented, List.nil_append, List.filter_flatMap,
        List.flatMap_congr ih, tree.trivia.filter_comments, postorder_exact, List.flatMap_append,
        List.flatMap_assoc, List.flatMap_singleton]

theorem indented_alternatives {trees : List Tree} (each : ∀ tree ∈ trees, Indented tree.items) :
    Indented (alternativeItems trees) := by
  induction trees with
  | nil => exact indented_none
  | cons tree rest ih =>
      obtain ⟨first, later⟩ := List.forall_mem_cons.mp each
      exact indented_token (indented_append first (ih later))

theorem indented_elements {trees : List Tree} (each : ∀ tree ∈ trees, Indented tree.items)
    (indented : Bool) : Indented (elementItems indented trees) := by
  induction trees generalizing indented with
  | nil => exact indented_none
  | cons tree rest ih =>
      obtain ⟨first, later⟩ := List.forall_mem_cons.mp each
      have shown := indented_append (indented_grouped tree.isChoice first)
        (ih later (endsInIndent (tree.asElement tree.items)))
      -- Continuation spaces are one more token in front.
      cases indented with
      | false => exact shown
      | true => exact indented_token shown

theorem indented_items (tree : Tree) : Indented tree.items := by
  induction tree with
  | leaf kind text trivia => exact indented_token trivia.indented_items
  | repeated repetition child trivia ih =>
      exact indented_append (indented_grouped child.isGroup ih) (indented_token trivia.indented_items)
  | choice first rest trivia ihFirst ihRest =>
      exact indented_append (indented_append ihFirst (indented_alternatives ihRest)) trivia.indented_items
  | sequence first rest trivia ihFirst ihRest =>
      exact indented_append (indented_append (indented_grouped first.isChoice ihFirst)
        (indented_elements ihRest _)) trivia.indented_items

/-- A tree is shown whole: its leaves in the order of the walk, each in its own style; the trivia of its nodes,
each behind the trivia of the nodes below it; and a line break with an indent behind it for each node that asks
for one. -/
theorem items_conserve (tree : Tree) :
    tree.items.filter (Item.hasStyle leafStyles) = tree.walk.filterMap leafItem? ∧
      tree.items.filter (Item.hasStyle [.comment]) = tree.postorder.flatMap (·.trivia.remarks) ∧
      breaks tree.items = tree.walk.countP (·.trivia.newline) ∧ Indented tree.items :=
  ⟨tree.leaves_shown, tree.remarks_shown, tree.breaks_items, tree.indented_items⟩

end Tree

end GrammarPage
