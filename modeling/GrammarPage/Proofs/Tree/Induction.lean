import GrammarPage.Tree.Canonical

/-!
Induction over trees: what holds of a leaf, and passes from the children of a node to the node, holds of
every tree. The lists of children are then handled by membership.
-/

namespace GrammarPage.Tree

@[elab_as_elim, induction_eliminator]
theorem induct {motive : Tree → Prop}
    (leaf : ∀ kind text trivia, motive (.leaf kind text trivia))
    (repeated : ∀ repetition child trivia, motive child →
      motive (.repeated repetition child trivia))
    (choice : ∀ first rest trivia, motive first → (∀ tree ∈ rest, motive tree) →
      motive (.choice first rest trivia))
    (sequence : ∀ first rest trivia, motive first → (∀ tree ∈ rest, motive tree) →
      motive (.sequence first rest trivia)) :
    ∀ tree, motive tree
  | .leaf kind text trivia => leaf kind text trivia
  | .repeated repetition child trivia =>
      repeated repetition child trivia (induct leaf repeated choice sequence child)
  | .choice first rest trivia =>
      choice first rest trivia (induct leaf repeated choice sequence first)
        fun tree _ => induct leaf repeated choice sequence tree
  | .sequence first rest trivia =>
      sequence first rest trivia (induct leaf repeated choice sequence first)
        fun tree _ => induct leaf repeated choice sequence tree

/-- Induction by children, whatever the kind. -/
theorem induct_children {motive : Tree → Prop}
    (node : ∀ tree : Tree, (∀ child ∈ tree.children, motive child) → motive tree) :
    ∀ tree, motive tree := by
  intro tree
  induction tree with
  | leaf kind text trivia => exact node _ (by simp [children])
  | repeated repetition child trivia ih => exact node _ (by simpa [children] using ih)
  | choice first rest trivia ihFirst ihRest => exact node _ (by simpa [children] using ⟨ihFirst, ihRest⟩)
  | sequence first rest trivia ihFirst ihRest =>
      exact node _ (by simpa [children] using ⟨ihFirst, ihRest⟩)

theorem walk_all_exact (trees : List Tree) : walkAll trees = trees.flatMap walk := by
  induction trees with
  | nil => rfl
  | cons tree rest ih => simp [walkAll, ih]

/-- A walk begins with the tree and goes on with the walks of its children. -/
theorem walk_exact (tree : Tree) : tree.walk = tree :: tree.children.flatMap walk := by
  cases tree <;> simp [walk, children, walk_all_exact]

/-- What holds of every node holds of the root and below every child. -/
theorem walk_all_iff {holds : Tree → Prop} {tree : Tree} :
    (∀ node ∈ tree.walk, holds node) ↔
      holds tree ∧ ∀ child ∈ tree.children, ∀ node ∈ child.walk, holds node := by
  simp only [walk_exact tree, List.forall_mem_cons, List.mem_flatMap, forall_exists_index, and_imp]
  exact and_congr_right fun _ => ⟨fun all child member node below => all node child member below,
    fun all node child member below => all child member node below⟩

/-- The text of a name; a terminal is none. -/
def nameText? : Tree → Option Text
  | .leaf .reference text _ | .leaf .extendedTerminal text _ => some text
  | _ => none

/-- The texts of references and extended terminals, in the order of the walk. -/
def nameTexts (tree : Tree) : List Text := tree.walk.filterMap nameText?

theorem walk_self (tree : Tree) : tree ∈ tree.walk := by
  cases tree <;> simp [walk]

/-- Everything below a child is below its parent. -/
theorem walk_child {tree child : Tree} (member : child ∈ tree.children) :
    child.walk ⊆ tree.walk := by
  intro node below
  cases tree with
  | leaf kind text trivia => simp [children] at member
  | repeated repetition only trivia =>
      obtain rfl : child = only := by simpa [children] using member
      simp [walk, below]
  | choice first rest trivia | sequence first rest trivia =>
      simp only [walk, walk_all_exact, List.mem_cons, List.mem_append, List.mem_flatMap]
      rcases List.mem_cons.mp member with rfl | later
      · exact .inl (.inr below)
      · exact .inr ⟨child, later, below⟩

theorem names_child {tree child : Tree} (member : child ∈ tree.children) :
    child.nameTexts ⊆ tree.nameTexts :=
  List.filterMap_subset nameText? (walk_child member)

end GrammarPage.Tree
