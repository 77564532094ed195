import GrammarPage.Proofs.Layout.Leads
import GrammarPage.Proofs.Layout.Productions
import GrammarPage.Proofs.Tree.Induction

/-!
Grammars whose names can be told on a page. Names are single words with something between them, and no
other text can be taken for the colon after a name.
-/

namespace GrammarPage

/-- A token that is a name is one word; any other says something that does not begin with a colon. -/
def Token.Ordinary (token : Token) : Prop :=
  if token.style = .production then IsWord token.text
  else token.text ≠ "" ∧ lead token.text ≠ some (.char ':')

theorem Token.sound_of_ordinary {token : Token} (ordinary : token.Ordinary) : token.Sound := by
  rw [Ordinary] at ordinary
  rw [Sound]
  split at ordinary
  · case isTrue name => rwa [if_pos name]
  · case isFalse other => rw [if_neg other]; exact ordinary.1

namespace Item

def Ordinary : Item → Prop
  | .token styled => styled.Ordinary
  | .lineBreak => True

def Apart : Item → Item → Prop
  | .token left, .token right => left.Apart right
  | _, _ => True

instance : DecidableRel Apart
  | .token left, .token right =>
      inferInstanceAs (Decidable (¬ (left.style = .production ∧ right.style = .production)))
  | .token _, .lineBreak | .lineBreak, _ => .isTrue trivial

theorem plain_ordinary {text : Text} (given : text ≠ "") (begins : lead text ≠ some (.char ':')) :
    (plain text).Ordinary := ⟨given, begins⟩

theorem comment_ordinary {text : Text} (given : text ≠ "") (begins : lead text ≠ some (.char ':')) :
    (comment text).Ordinary := ⟨given, begins⟩

end Item

/-- What a leaf shows can be told from the colon after a name. -/
def Leaf.Legible (text : Text) : Leaf → Prop
  | .reference => IsWord text
  | .extendedTerminal => text ≠ "" ∧ lead text ≠ some (.char ':')
  | .terminal => True

def Tree.Legible (node : Tree) : Prop :=
  blank node.trivia.whitespace = true ∧
    match node with
    | .leaf kind text _ => kind.Legible text
    | _ => True

structure Grammar.Legible (grammar : Grammar) : Prop where
  names : ∀ name ∈ grammar.names, IsWord name
  nodes : ∀ production ∈ grammar.productions, ∀ body ∈ production.body, ∀ node ∈ body.walk,
    node.Legible
  apart : grammar.items.IsChain Item.Apart

section Items
variable {item : Item}

theorem leaf_ordinary {kind : Leaf} {text : Text} (legible : kind.Legible text) :
    Token.Ordinary ⟨kind.shownText text, kind.style⟩ := by
  cases kind with
  | terminal =>
      have begins : lead (quoteTerminal text) = some (.char '\x27') := by
        have shows : Text.isBlank '\x27' = false := by decide
        simp [lead_exact, quoteTerminal, quotedTerminal, shows]
      refine ⟨?_, by rw [Leaf.shownText, begins]; decide⟩
      intro none
      have empty : quoteTerminal text = "" := none
      simp [empty, lead, Text.trimStart] at begins
  | extendedTerminal => exact legible
  | reference => exact legible

theorem remark_ordinary {mark : Text} (shows : blank mark = false) (begins : lead mark ≠ some (.char ':'))
    {comment : Option Text} (member : item ∈ remarkItems mark comment) : item.Ordinary := by
  rw [remarkItems] at member
  split at member
  · case h_1 text _ =>
      obtain rfl := List.mem_singleton.mp member
      apply Item.comment_ordinary
      · exact visible_some (by rw [blank_append, shows, Bool.false_and])
      · rwa [lead_append shows]
  · simp at member

theorem trivia_ordinary {trivia : Trivia} (unseen : blank trivia.whitespace = true)
    (member : item ∈ trivia.items) : item.Ordinary := by
  rw [Trivia.items, List.mem_append, List.mem_append] at member
  rcases member with (space | remark) | broken
  · rw [spaceItems] at space
    split at space
    · simp at space
    · case isFalse given =>
        obtain rfl := List.mem_singleton.mp space
        exact Item.comment_ordinary given (by simp [lead_blank unseen])
  · exact remark_ordinary (by decide) (by decide) remark
  · split at broken
    · rcases List.mem_pair.mp broken with rfl | rfl
      · trivial
      · exact Item.plain_ordinary (by decide) (by decide)
    · simp at broken

theorem parenthesized_ordinary {inner : List Item} (all : ∀ item ∈ inner, item.Ordinary)
    (member : item ∈ Item.parenthesized inner) : item.Ordinary := by
  simp only [Item.parenthesized, List.cons_append, List.mem_cons, List.mem_append, List.not_mem_nil,
    or_false] at member
  rcases member with rfl | inside | rfl
  · exact Item.plain_ordinary (by decide) (by decide)
  · exact all item inside
  · exact Item.plain_ordinary (by decide) (by decide)

namespace Tree

theorem element_ordinary {tree : Tree} {inner : List Item} (all : ∀ item ∈ inner, item.Ordinary)
    (member : item ∈ tree.asElement inner) : item.Ordinary := by
  rw [asElement] at member
  split at member
  · exact parenthesized_ordinary all member
  · exact all item member

theorem operand_ordinary {tree : Tree} {inner : List Item} (all : ∀ item ∈ inner, item.Ordinary)
    (member : item ∈ tree.asOperand inner) : item.Ordinary := by
  rw [asOperand] at member
  split at member
  · exact parenthesized_ordinary all member
  · exact all item member

theorem alternatives_ordinary {trees : List Tree} (all : ∀ tree ∈ trees, ∀ item ∈ tree.items, item.Ordinary)
    (member : item ∈ alternativeItems trees) : item.Ordinary := by
  induction trees with
  | nil => simp [alternativeItems] at member
  | cons tree rest ih =>
      simp only [alternativeItems, List.cons_append, List.mem_cons, List.mem_append] at member
      rcases member with rfl | here | later
      · exact Item.plain_ordinary (by decide) (by decide)
      · exact all tree List.mem_cons_self item here
      · exact ih (fun other inRest => all other (List.mem_cons_of_mem _ inRest)) later

theorem elements_ordinary {trees : List Tree} (all : ∀ tree ∈ trees, ∀ item ∈ tree.items, item.Ordinary)
    {indented : Bool} (member : item ∈ elementItems indented trees) : item.Ordinary := by
  induction trees generalizing indented with
  | nil => simp [elementItems] at member
  | cons tree rest ih =>
      simp only [elementItems, List.mem_append] at member
      rcases member with (gap | here) | later
      · split at gap
        · obtain rfl := List.mem_singleton.mp gap
          exact Item.plain_ordinary (by decide) (by decide)
        · simp at gap
      · exact element_ordinary (all tree List.mem_cons_self) here
      · exact ih (fun other inRest => all other (List.mem_cons_of_mem _ inRest)) later

section Legible
variable {tree : Tree} (legible : ∀ node ∈ tree.walk, node.Legible)
include legible

theorem legible_child {child : Tree} (member : child ∈ tree.children) :
    ∀ node ∈ child.walk, node.Legible := fun node below => legible node (walk_child member below)

theorem legible_behind (behind : item ∈ tree.trivia.items) : item.Ordinary :=
  trivia_ordinary (legible tree tree.walk_self).1 behind

/-- Nothing that a legible tree shows can be taken for the colon after a name. -/
theorem items_ordinary : ∀ item ∈ tree.items, item.Ordinary := by
  induction tree with
  | leaf kind text trivia =>
      intro item member
      rcases List.mem_cons.mp member with rfl | behind
      · exact leaf_ordinary (legible (.leaf kind text trivia) (walk_self _)).2
      · exact legible_behind legible behind
  | repeated repetition child trivia ih =>
      intro item member
      have inner := ih (legible_child legible (List.mem_singleton.mpr rfl))
      rw [items, List.mem_append, List.mem_cons] at member
      rcases member with operand | rfl | behind
      · exact operand_ordinary inner operand
      · cases repetition <;> exact Item.plain_ordinary (by decide) (by decide)
      · exact legible_behind legible behind
  | choice first rest trivia ihFirst ihRest =>
      intro item member
      have inFirst := ihFirst (legible_child legible List.mem_cons_self)
      have inRest := fun tree later =>
        ihRest tree later (legible_child legible (List.mem_cons_of_mem _ later))
      rw [items, List.mem_append, List.mem_append] at member
      rcases member with (here | later) | behind
      · exact inFirst item here
      · exact alternatives_ordinary inRest later
      · exact legible_behind legible behind
  | sequence first rest trivia ihFirst ihRest =>
      intro item member
      have inFirst := ihFirst (legible_child legible List.mem_cons_self)
      have inRest := fun tree later =>
        ihRest tree later (legible_child legible (List.mem_cons_of_mem _ later))
      rw [items, List.mem_append, List.mem_append] at member
      rcases member with (here | later) | behind
      · exact element_ordinary inFirst here
      · exact elements_ordinary inRest later
      · exact legible_behind legible behind

end Legible

end Tree

theorem segments_ordinary {items : List Item} (ordinary : ∀ item ∈ items, item.Ordinary) :
    ∀ segment ∈ (segments items).1, ∀ token ∈ segment, token.Ordinary := by
  intro segment member token inSegment
  have inItems : Item.token token ∈ items :=
    (segment_within member).subset (List.mem_map_of_mem inSegment)
  exact ordinary (.token token) inItems

theorem segments_apart {items : List Item} (apart : items.IsChain Item.Apart) :
    ∀ segment ∈ (segments items).1, segment.IsChain Token.Apart :=
  fun _ member =>
    (List.isChain_map Item.token).mp ( List.IsChain.infix apart (segment_within member))

namespace Production

theorem opening_ordinary {production : Production} (member : item ∈ production.opening) :
    item.Ordinary := by
  rw [opening] at member
  split at member
  · simp only [List.mem_cons, List.not_mem_nil, or_false] at member
    rcases member with rfl | rfl | rfl
    · trivial
    · exact Item.plain_ordinary (by decide) (by decide)
    · exact Item.plain_ordinary (by decide) (by decide)
  · obtain rfl := List.mem_singleton.mp member
    exact Item.plain_ordinary (by decide) (by decide)

theorem behind_colon_ordinary {production : Production} {body : Tree}
    (legible : ∀ node ∈ body.walk, node.Legible) :
    ∀ item ∈ production.behindColon body ++ [.lineBreak], item.Ordinary := by
  intro item member
  simp only [behindColon, List.mem_append, List.mem_cons, List.not_mem_nil, or_false] at member
  rcases member with ((opens | inBody) | rfl | remark) | rfl
  · exact opening_ordinary opens
  · exact Tree.items_ordinary legible item inBody
  · exact Item.plain_ordinary (by decide) (by decide)
  · exact remark_ordinary (by decide) (by decide) remark
  · trivial

theorem bodiless_ordinary {production : Production} (bodiless : production.body = none) :
    ∀ item ∈ production.items, item.Ordinary := by
  intro item member
  rw [items_bodiless bodiless, List.mem_append, List.mem_singleton] at member
  rcases member with remark | rfl
  · exact remark_ordinary (by decide) (by decide) remark
  · trivial

end Production

end Items

end GrammarPage
