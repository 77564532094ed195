import Mathlib.Data.List.Nodup
import GrammarPage.Proofs.Page.Emission
import GrammarPage.Proofs.Page.Faithful
import GrammarPage.Proofs.Page.Resolved

/-!
What is unique on a page, whatever its lines hold. A name that has an element of its own is anchored, and gets no
other.
-/

namespace GrammarPage

namespace Emitter

section Distinct
variable {emitter : Emitter} {links : LinkTable} {anchored after : List Text} {line : List (Run Mark)}
  {elements : List Element} (distinct : anchored.Nodup)
include distinct

theorem run_distinct {opens : Bool} {run : Run Mark}
    (made : emitter.runElements links anchored opens run = .ok (elements, after)) : after.Nodup := by
  simp only [runElements] at made
  split at made
  · cases made
  · split at made
    · cases made
      exact distinct
    · split at made
      · rename_i new
        cases made
        have fresh : trimmed run.text ∉ anchored := by simpa using (Bool.and_eq_true_iff.mp new).2
        exact List.nodup_cons.mpr ⟨fresh, distinct⟩
      · cases made
        exact distinct

theorem row_distinct (made : emitter.rowElements links anchored line = .ok (elements, after)) :
    after.Nodup := by
  induction line generalizing anchored elements with
  | nil =>
      cases made
      exact distinct
  | cons run rest ih =>
      obtain ⟨first, middle, later, here, row, -⟩ := row_elements_split made
      exact ih (run_distinct distinct here) row

theorem line_distinct (made : emitter.lineElements links anchored line = .ok (elements, after)) :
    after.Nodup := by
  cases line with
  | nil =>
      cases made
      exact distinct
  | cons run rest =>
      obtain ⟨first, middle, later, here, row, -⟩ := line_elements_split made
      exact row_distinct (run_distinct distinct here) row

theorem page_lines_distinct {lines : List (List (Run Mark))} {rows : List (List Element)}
    (made : emitter.pageLines links anchored lines = .ok rows) :
    ((idsOf rows.flatten).reverse ++ anchored).Nodup := by
  induction lines generalizing anchored rows with
  | nil =>
      cases made
      exact distinct
  | cons line rest ih =>
      obtain ⟨first, middle, later, here, below, rfl⟩ := page_lines_split made
      have whole := ih (line_distinct distinct here) below
      rw [row_anchored (line_elements_emits here)] at whole
      rw [List.flatten_cons, ids_of_append, List.reverse_append, List.append_assoc]
      exact whole

end Distinct

end Emitter

/-- The identities of elements are what their roles hold under "id". -/
theorem ids_of_attributes (elements : List Element) :
    (elements.flatMap fun element =>
      (element.role.attributes.filter fun each => each.1 = ("id" : Text)).map Prod.snd) = idsOf elements := by
  induction elements with
  | nil => rfl
  | cons element rest ih =>
      rw [List.flatMap_cons, ih, ← List.singleton_append, ids_of_append]
      obtain ⟨role, swatch, text⟩ := element
      cases role <;> rfl

/-- An identity that was made from the names defined is one of them. -/
theorem Element.MadeFrom.id_known {defined : List Text} {links : LinkTable} {element : Element}
    (made : element.MadeFrom defined links) : ∀ id ∈ idsOf [element], id ∈ defined := by
  cases made with
  | plain swatch text | reference swatch text known => exact fun id member => absurd member List.not_mem_nil
  | anchor swatch text known inward => exact List.forall_mem_singleton.mpr known
  | outward swatch text known given leads => exact List.forall_mem_singleton.mpr known

namespace Emitter
open Document

theorem ids_known {emitter : Emitter} {links : LinkTable} {elements : List Element}
    (made : ∀ element ∈ elements, element.MadeFrom emitter.defined links) :
    ∀ id ∈ idsOf elements, id ∈ emitter.defined := by
  induction elements with
  | nil => exact fun id member => absurd member List.not_mem_nil
  | cons element rest ih =>
      obtain ⟨here, later⟩ := List.forall_mem_cons.mp made
      rw [← List.singleton_append, ids_of_append]
      exact List.forall_mem_append.mpr ⟨here.id_known, ih later⟩

/-- Any emitter with any lines, whatever it kept of the page before: there is a page if every run has a colour, and
if not, the first run without one stops it. On a page no two elements have the same identity, and every identity is
the name of a production that the emitter was made with. -/
theorem emission_exact (settings : Settings) (captured : Option Grammar) (links : LinkTable)
    (lines : List (List (Run Mark))) (title : Option Text) (kept : List Text) :
    let made := (((Emitter.ofGrammar settings captured).emit links lines title).run.run kept).1
    ((∃ page, made = .ok page) ↔ ∀ line ∈ lines, ∀ run ∈ line, settings.Colours run) ∧
      (∀ mark, made = .error mark ↔ ∃ run, settings.StopsAt lines run ∧ run.mark = mark) ∧
      ∀ page, made = .ok page →
        ((values "id" page.markup.toList).map decoded).Nodup ∧
        ∀ id ∈ (values "id" page.markup.toList).map decoded,
          ∃ grammar, captured = some grammar ∧
            ∃ production ∈ grammar.productions, production.name = some id := by
  intro made
  have same : made = (Emitter.ofGrammar settings captured).page links lines title :=
    emit_page _ links lines title kept
  rw [same]
  refine ⟨page_made_iff, fun mark => page_stopped_iff, fun page shown => ?_⟩
  rw [page.values_read (by decide), ids_of_attributes]
  constructor
  · have distinct := page_lines_distinct List.nodup_nil (page_split shown).1
    rw [List.append_nil] at distinct
    exact List.nodup_reverse.mp distinct
  · intro id member
    have known : id ∈ (Emitter.ofGrammar settings captured).defined := ids_known (page_made_from shown) id member
    cases captured with
    | none => exact absurd known List.not_mem_nil
    | some grammar =>
        exact ⟨grammar, rfl, List.mem_filterMap.mp (Grammar.mem_defined_iff.mp known)⟩

/-- Three lines define one name, blanks apart, and the page before had it as well. Then two runs without a colour
come behind them. -/
theorem emission_exact_repeated :
    let grammar : Grammar := ⟨[⟨some "A", none, some "doc", false⟩, ⟨some "A", none, none, false⟩], none, .empty⟩
    let settings := Settings.default.dropStyles [.comment]
    let opening (text : Text) : List (Run Mark) := [⟨text, .style .production⟩, ⟨" :", .style .plainText⟩]
    let lines := [opening " A", opening "A", [], opening "A\t"]
    let made (lines : List (List (Run Mark))) :=
      (((Emitter.ofGrammar settings (some grammar)).emit .empty lines none).run.run ["A"]).1
    (∃ page, made lines = .ok page ∧ ((values "id" page.markup.toList).map decoded).Nodup ∧
      ∀ id ∈ (values "id" page.markup.toList).map decoded, id = "A") ∧
      made (lines ++ [[⟨"c", .style .comment⟩, ⟨"n", .other .null⟩]]) = .error (.style .comment) := by
  intro grammar settings opening lines made
  obtain ⟨total, -, ids⟩ := emission_exact settings (some grammar) .empty lines none ["A"]
  obtain ⟨-, stopped, -⟩ := emission_exact settings (some grammar) .empty
    (lines ++ [[⟨"c", .style .comment⟩, ⟨"n", .other .null⟩]]) none ["A"]
  have coloured : ∀ line ∈ lines, ∀ run ∈ line, settings.Colours run := by
    simp [lines, opening, Settings.Colours, settings, Settings.dropStyles, Palette.drop, Settings.default,
      Palette.default]
  constructor
  · obtain ⟨page, shown⟩ := total.mpr coloured
    obtain ⟨distinct, known⟩ := ids page shown
    refine ⟨page, shown, distinct, fun id member => ?_⟩
    obtain ⟨_, ⟨⟩, production, inGrammar, named⟩ := known id member
    rcases List.mem_pair.mp inGrammar with rfl | rfl <;> exact (Option.some.inj named).symm
  · refine (stopped _).mpr ⟨⟨"c", .style .comment⟩, ⟨lines.flatten, [⟨"n", .other .null⟩], ?_, ?_, ?_⟩, rfl⟩
    · rw [List.flatten_append, List.flatten_singleton]
    · intro earlier member
      obtain ⟨line, inLines, inLine⟩ := List.mem_flatten.mp member
      exact coloured line inLines earlier inLine
    · rintro ⟨style, swatch, ⟨⟩, found⟩
      cases found

end Emitter

end GrammarPage
