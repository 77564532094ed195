import Mathlib.Data.List.DropRight
import GrammarPage.Display.Line

/-!
A stream that is interrupted. A line is given at the line break that ends it, and what has been given depends
on nothing that follows. So a value that is no item takes the line under way with it, and that line only.
-/

namespace GrammarPage

namespace Layout

/-- The lines given on the way through a stretch of the stream. -/
def given (layout : Layout) : List Item → List Line
  | [] => []
  | item :: rest => (layout.step item).1 ++ given (layout.step item).2 rest

/-- The layout behind a stretch of the stream. -/
def after (layout : Layout) (items : List Item) : Layout :=
  items.foldl (fun reached item => (reached.step item).2) layout

theorem given_append (layout : Layout) (left right : List Item) :
    layout.given (left ++ right) = layout.given left ++ (layout.after left).given right := by
  induction left generalizing layout with
  | nil => rfl
  | cons item rest ih => simp [given, after, ih]

/-- A token gives no line. -/
theorem given_unbroken (layout : Layout) {items : List Item} (unbroken : ∀ item ∈ items, item ≠ .lineBreak) :
    layout.given items = [] := by
  induction items generalizing layout with
  | nil => rfl
  | cons item rest ih =>
      cases item with
      | lineBreak => exact absurd rfl (unbroken .lineBreak List.mem_cons_self)
      | token token => exact ih _ fun item member => unbroken item (List.mem_cons_of_mem _ member)

/-- Nothing is under way behind a line break. -/
theorem after_break (layout : Layout) (front : List Item) :
    layout.after (front ++ [.lineBreak]) = ⟨true, [], none⟩ := by
  simp [after, step]

end Layout

theorem lines_until_append {value : Type} (layout : Layout) (items : List Item) (later : List (Entry value)) :
    linesUntil layout (items.map .item ++ later) =
      (layout.given items ++ (linesUntil (layout.after items) later).1,
        (linesUntil (layout.after items) later).2) := by
  induction items generalizing layout with
  | nil => rfl
  | cons item rest ih => simp [linesUntil, Layout.given, Layout.after, ih]

theorem lines_from_append (layout : Layout) (items more : List Item) :
    linesFrom layout (items ++ more) = layout.given items ++ linesFrom (layout.after items) more := by
  have whole := @lines_until_item Empty layout (items ++ more)
  rw [List.map_append, lines_until_append, lines_until_item] at whole
  exact (congrArg Prod.fst whole).symm

/-- The stream up to its last line break, which is nothing if there is none. -/
def closedPart (items : List Item) : List Item := items.rdropWhile (· ≠ .lineBreak)

theorem given_closed_part (layout : Layout) (items : List Item) :
    layout.given (closedPart items) = layout.given items := by
  have cut : closedPart items ++ items.rtakeWhile (· ≠ .lineBreak) = items :=
    List.rdropWhile_append_rtakeWhile
  have unbroken : ∀ item ∈ items.rtakeWhile (· ≠ .lineBreak), item ≠ .lineBreak :=
    fun item member => by simpa using List.mem_rtakeWhile_imp member
  -- Behind the last line break there are tokens only.
  calc layout.given (closedPart items)
      = layout.given (closedPart items ++ items.rtakeWhile (· ≠ .lineBreak)) := by
        rw [Layout.given_append, Layout.given_unbroken _ unbroken, List.append_nil]
    _ = layout.given items := by rw [cut]

theorem closed_part_ends {items : List Item} (nonempty : closedPart items ≠ []) :
    ∃ front, closedPart items = front ++ [.lineBreak] := by
  have last : (closedPart items).getLast nonempty = .lineBreak :=
    Decidable.not_not.mp fun other => List.rdropWhile_last_not _ items nonempty (decide_eq_true other)
  exact ⟨_, last ▸ (List.dropLast_append_getLast nonempty).symm⟩

/-- Cut off behind its last line break, a stream gives the lines that it gives on the way. -/
theorem lines_of_closed_part (items : List Item) : linesOf (closedPart items) = Layout.start.given items := by
  have nothingLeft : linesFrom (Layout.start.after (closedPart items)) [] = [] := by
    by_cases none : closedPart items = []
    · rw [none]
      rfl
    · obtain ⟨front, ends⟩ := closed_part_ends none
      rw [ends, Layout.after_break]
      rfl
  have whole := lines_from_append .start (closedPart items) []
  rw [List.append_nil, nothingLeft, List.append_nil, given_closed_part] at whole
  exact whole

/-- A value that is no item ends the lines there: they are those of the stream in front of it, cut off behind
the last line break, whatever would follow. On every way the stream could have gone on, they come first. -/
theorem interrupted_exact {value : Type} (items : List Item) (stray : value) (rest : List (Entry value)) :
    linesUntil .start (items.map .item ++ .foreign stray :: rest) = (linesOf (closedPart items), some stray) ∧
      ∀ more, linesOf (closedPart items) <+: linesOf (items ++ more) := by
  rw [lines_of_closed_part]
  constructor
  · rw [lines_until_append, linesUntil, List.append_nil]
  · intro more
    rw [linesOf, lines_from_append]
    exact List.prefix_append _ _

end GrammarPage
