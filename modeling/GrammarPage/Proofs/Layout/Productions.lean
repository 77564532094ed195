import GrammarPage.Proofs.Layout.Cuts
import GrammarPage.Proofs.Layout.Names

/-!
What a production lays out. With a body it is a line that begins with the name and a colon, and whatever
lines the body breaks into; without one it is a line for its comment.
-/

namespace GrammarPage

/-- The texts in the style of productions, in the order of the stream. -/
def productionTexts (items : List Item) : List Text := tokenNames (tokensOf items)

theorem production_texts_append (left right : List Item) :
    productionTexts (left ++ right) = productionTexts left ++ productionTexts right := by
  rw [productionTexts, tokens_of_append, token_names_append]
  rfl

theorem production_texts_remark (mark : Text) (comment : Option Text) :
    productionTexts (remarkItems mark comment) = [] := by
  rw [remarkItems]
  split <;> rfl

theorem production_texts_break (items : List Item) :
    productionTexts (items ++ [.lineBreak]) = productionTexts items := by
  rw [production_texts_append]
  exact List.append_nil _

namespace Production

/-- What follows the colon after the name, up to the end of the last line. -/
def behindColon (production : Production) (body : Tree) : List Item :=
  production.opening ++ body.items ++ Item.plain ";" :: remarkItems "  //" production.comment

theorem items_bodied {production : Production} {body : Tree} (bodied : production.body = some body) :
    production.items = .token ⟨production.name.getD "", .production⟩ ::
      .token ⟨":", .plainText⟩ :: (production.behindColon body ++ [.lineBreak]) := by
  simp [items, bodied, behindColon, Item.plain]

theorem items_bodiless {production : Production} (bodiless : production.body = none) :
    production.items = remarkItems "// " production.comment ++ [.lineBreak] := by
  simp [items, bodiless]

theorem texts_opening (production : Production) : productionTexts production.opening = [] := by
  rw [opening]
  split <;> rfl

theorem texts_behind_colon (production : Production) (body : Tree) :
    productionTexts (production.behindColon body) = productionTexts body.items := by
  have close : ∀ items, productionTexts (Item.plain ";" :: items) = productionTexts items :=
    fun _ => rfl
  rw [behindColon, production_texts_append, production_texts_append, texts_opening, close,
    production_texts_remark, List.nil_append, List.append_nil]

theorem texts_bodied {production : Production} {body : Tree} (bodied : production.body = some body) :
    productionTexts production.items = production.name.getD "" :: productionTexts body.items := by
  have start : ∀ items, productionTexts (.token ⟨production.name.getD "", .production⟩ ::
      .token ⟨":", .plainText⟩ :: items) = production.name.getD "" :: productionTexts items :=
    fun _ => rfl
  rw [items_bodied bodied, start, production_texts_break, texts_behind_colon]

theorem texts_bodiless {production : Production} (bodiless : production.body = none) :
    productionTexts production.items = [] := by
  rw [items_bodiless bodiless, production_texts_break, production_texts_remark]

theorem texts_segments (production : Production) :
    tokenNames (segments production.items).1.flatten = productionTexts production.items := by
  rw [productionTexts, ← segments_flatten, production.last_segment, List.append_nil]

/-- The first segment of a production with a body begins with the name and the colon; the names behind them
are those of the body. -/
theorem segments_bodied {production : Production} {body : Tree} (bodied : production.body = some body) :
    ∃ behind more, segments (production.behindColon body ++ [.lineBreak]) = (behind :: more, []) ∧
      segments production.items =
        ((⟨production.name.getD "", .production⟩ :: ⟨":", .plainText⟩ :: behind) :: more, []) ∧
      tokenNames behind ++ tokenNames more.flatten = productionTexts body.items := by
  obtain ⟨behind, more, cut⟩ : ∃ behind more,
      segments (production.behindColon body ++ [.lineBreak]) = (behind :: more, []) := by
    rw [segments_append_break]
    rcases segments (production.behindColon body) with ⟨_ | ⟨behind, more⟩, last⟩
    · exact ⟨last, [], rfl⟩
    · exact ⟨behind, more ++ [last], rfl⟩
  refine ⟨behind, more, cut, ?_, ?_⟩
  · rw [items_bodied bodied]
    simp [segments, cut]
  · have whole := segments_flatten (production.behindColon body ++ [.lineBreak])
    rw [cut, List.append_nil, List.flatten_cons] at whole
    rw [← token_names_append, whole, ← productionTexts, production_texts_break, texts_behind_colon]

end Production

end GrammarPage
