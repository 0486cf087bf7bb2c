import Metafile.Proofs.Svg.Canvas
import Metafile.Proofs.Svg.Shape
import Metafile.Svg.Document

/-! Tags in documents. The elements of a drawing account for all left angle brackets in its
text but those that its texts and families bring along. -/

namespace Metafile

namespace Svg

namespace Writer

variable (w : Writer)

/-- What of a text and its font is put into a document as it is. A family that cannot be
written is left out. -/
def inserted (written : String × Lettering) : String :=
  written.1 ++ if (w.mark? written.2.family).isSome then written.2.family else ""

/-- Of a family with quotation marks of both kinds nothing is put into the documents. -/
theorem inserted_standard (written : String × Lettering) : standard.inserted written =
    written.1 ++ if IsWritable written.2.family then written.2.family else "" := by
  unfold inserted standard
  dsimp only
  simp only [isSome_quotationMark?_iff]

/-- The element of a shape has one tag, or one before and one behind a text. -/
theorem angles_node (shape : Shape) :
    angles (w.render shape.node) = (if shape.text?.isSome then 2 else 1) +
      angles (String.join (shape.text?.toList.map w.inserted)) := by
  cases shape with
  | text content point family size fill =>
      have hFamily : angles (w.renderAttribute ("font-family", family)) =
          angles (if (w.mark? family).isSome then family else "") := by
        rw [angles_renderAttribute, show angles "font-family" = 0 from rfl, Nat.zero_add]
        split <;> rfl
      calc angles (w.render (Shape.node (.text content point family size fill)))
        _ = 2 + angles (if (w.mark? family).isSome then family else "") + angles content := by
          rw [Shape.node, w.angles_render_element rfl]
          simp +decide [String.join_cons, w.render_text, hFamily, angles_renderAttribute_eq_zero]
        _ = 2 + angles (w.inserted (content, ⟨family, size⟩)) := by
          rw [inserted, angles_append, Nat.add_assoc, Nat.add_comm (angles content)]
        _ = 2 + angles (String.join [w.inserted (content, ⟨family, size⟩)]) := by
          simp [String.join_cons]
  | filledBox _ _ | outlinedBox _ _ | path _ _ | polyline _ _ | polygon _ _ _ =>
      rw [Shape.node, w.angles_render_element rfl, angles_renderAttributes_eq_zero]
      · rfl
      · simp +decide [strokeAttributes, cornerAttributes, angles_spaced]

/-- A document is an element around its children. It has two tags as soon as there is one
child. -/
theorem angles_document (size : Size Float) (children : List Node) :
    angles (w.render (document size children)) =
      (if children.isEmpty then 1 else 2) + angles (String.join (children.map w.render)) := by
  rw [document, w.angles_render_element rfl, angles_renderAttributes_eq_zero, Nat.add_zero]
  simp +decide [angles_spaced]

/-- Every shape is one tag except for a text, which is two around what it holds. Only texts bring
brackets that are none of tags. -/
theorem angles_nodes (shapes : List Shape) :
    angles (String.join ((shapes.map Shape.node).map w.render)) =
      shapes.countP (·.text?.isNone) + 2 * shapes.countP (·.text?.isSome) +
        angles (String.join ((shapes.filterMap Shape.text?).map w.inserted)) := by
  induction shapes with
  | nil => rfl
  | cons shape rest ih =>
      rw [List.map_cons, List.map_cons, String.join_cons, angles_append, ih, angles_node,
        List.countP_cons, List.countP_cons]
      cases hText : shape.text? with
      | none =>
          rw [List.filterMap_cons_none hText]
          simp only [Option.isSome_none, Option.isNone_none, Option.toList_none, List.map_nil,
            String.join_nil, angles_empty, Bool.false_eq_true, if_false, if_true]
          omega
      | some written =>
          rw [List.filterMap_cons_some hText]
          simp only [Option.isSome_some, Option.isNone_some, Option.toList_some, List.map_cons,
            List.map_nil, String.join_cons, String.join_nil, String.append_empty, angles_append,
            Bool.false_eq_true, if_false, if_true]
          omega

end Writer

namespace Canvas

/-- The tags of a drawing. The document has two of its own around its shapes, and one if
there are none. A text has two, and any other shape one. -/
def tags (c : Canvas) : Nat :=
  if c.shapes.isEmpty then 1
  else 2 + c.shapes.toList.countP (·.text?.isNone) + 2 * c.shapes.toList.countP (·.text?.isSome)

/-- The brackets of a drawing are those of its tags and of its texts. The styles and coordinates
in between have none, whatever numbers they hold. -/
theorem angles_write (c : Canvas) (w : Writer) :
    angles (c.write w) = c.tags + angles (String.join (c.texts.map w.inserted)) := by
  rw [write, w.angles_document, w.angles_nodes, ← Nat.add_assoc, texts, tags]
  congr 1
  by_cases hShapes : c.shapes = #[]
  · simp [hShapes]
  · simp [hShapes, Nat.add_assoc]

/-- The texts of a canvas are those of its calls, in the lettering that each of them finds. -/
theorem texts_ofCalls (calls : List Call) :
    (ofCalls calls).texts = empty.lettering.texts calls :=
  empty.texts_after calls

/-- No bracket comes from texts just if none of them is written with one. -/
theorem angles_inserted_eq_zero_iff {w : Writer} {texts : List (String × Lettering)} :
    angles (String.join (texts.map w.inserted)) = 0 ↔
      ∀ written ∈ texts, '<' ∉ (w.inserted written).toList := by
  rw [angles_join_eq_zero_iff, List.forall_mem_map]
  exact forall₂_congr fun _ _ => angles_eq_zero_iff

/-- The text of a drawing, whoever writes it, holds the brackets of its own tags and those that
the calls have put into it with texts and families, and no others. -/
theorem angles_text_ofCalls (w : Writer) (calls : List Call) :
    let canvas := ofCalls calls
    let texts := empty.lettering.texts calls
    angles (canvas.write w) = canvas.tags + angles (String.join (texts.map w.inserted)) ∧
      (angles (canvas.write w) = canvas.tags ↔
        ∀ written ∈ texts, '<' ∉ (w.inserted written).toList) := by
  intro canvas texts
  have hText : angles (canvas.write w) =
      canvas.tags + angles (String.join (texts.map w.inserted)) := by
    rw [angles_write, texts_ofCalls]
  refine ⟨hText, ?_⟩
  rw [hText, Nat.add_eq_left]
  exact angles_inserted_eq_zero_iff

/-- A text that is an element itself is one more element of the document. -/
theorem angles_text_ofCalls_elementText :
    ¬∀ calls, angles (ofCalls calls).text = (ofCalls calls).tags := by
  intro hTags
  have hText : angles (ofCalls [.drawText "<g/>" ⟨1, 1⟩]).text = 5 := by
    rw [text, angles_write, funext Writer.inserted_standard]
    decide
  rw [hTags] at hText
  exact absurd hText (by decide)

/-- Calls without brackets in their words cannot add any tags. -/
theorem angles_write_of_words {calls : List Call}
    (hWords : ∀ call ∈ calls, ∀ word ∈ call.words, '<' ∉ word.toList) (w : Writer) :
    angles ((ofCalls calls).write w) = (ofCalls calls).tags := by
  rw [angles_write, texts_ofCalls, Nat.add_eq_left, angles_inserted_eq_zero_iff]
  intro written hMem
  obtain ⟨⟨drawer, hDrawer, hText⟩, hFamily⟩ := Lettering.mem_texts hMem
  have hName : '<' ∉ written.2.family.toList := by
    rcases hFamily with hKept | ⟨setter, hSetter, hSet⟩
    · rw [hKept]
      decide
    · exact hWords setter hSetter _ hSet
  rw [Writer.inserted, String.toList_append, List.mem_append, not_or]
  refine ⟨hWords drawer hDrawer _ hText, ?_⟩
  split
  · exact hName
  · decide

end Canvas

end Svg

open Svg

/-- The document of a picture holds the brackets of its tags, of its texts and of their
families. -/
theorem Picture.angles_toSvg {p : Picture} {text : String} (hText : p.toSvg = .ok text) :
    let canvas := Canvas.ofCalls (p.replay .standard).calls
    angles text =
      canvas.tags + angles (String.join (canvas.texts.map Writer.standard.inserted)) := by
  unfold toSvg at hText
  cases hError : p.error with
  | some error =>
      rw [hError] at hText
      cases hText
  | none =>
      rw [hError] at hText
      obtain rfl := Except.ok.inj hText
      exact Canvas.angles_write ..

end Metafile
