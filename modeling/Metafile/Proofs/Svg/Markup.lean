import Metafile.Svg.Markup

/-! Left angle brackets in the text of an element. Each tag has one, and what is written as
it is may hold more. -/

namespace Metafile.Svg

/-- How many left angle brackets a text holds. -/
def angles (s : String) : Nat := s.toList.count '<'

@[simp]
theorem angles_empty : angles "" = 0 := rfl

@[simp]
theorem angles_append (s t : String) : angles (s ++ t) = angles s + angles t := by
  simp [angles]

theorem angles_eq_zero_iff {s : String} : angles s = 0 ↔ '<' ∉ s.toList := List.count_eq_zero

/-- Parts of a text hold none if the text does not. -/
theorem angles_ofList_of_subset {s : String} {part : List Char} (hPart : part ⊆ s.toList)
    (hNone : angles s = 0) : angles (String.ofList part) = 0 := by
  rw [angles_eq_zero_iff] at hNone ⊢
  rw [String.toList_ofList]
  exact fun hMem => hNone (hPart hMem)

/-- Texts put together have none just if each of them has none. -/
theorem angles_join_eq_zero_iff {texts : List String} :
    angles (String.join texts) = 0 ↔ ∀ text ∈ texts, angles text = 0 := by
  simp only [angles_eq_zero_iff, String.toList_join, List.mem_flatMap, not_exists, not_and]

/-- What stands between texts does not matter if it has none itself. -/
theorem angles_intercalate {separator : String} (hSeparator : angles separator = 0)
    (texts : List String) : angles (separator.intercalate texts) = angles (String.join texts) := by
  induction texts with
  | nil => rfl
  | cons text rest ih =>
      cases rest with
      | nil => simp
      | cons next rest =>
          rw [String.intercalate_cons_cons, angles_append, angles_append, hSeparator, ih,
            Nat.add_zero, ← angles_append, ← String.join_cons]

namespace Writer

variable (w : Writer)

/-- The text of an attribute. -/
def renderAttribute (pair : String × String) : String := attributeBetween w.mark? pair

/-- An attribute brings the brackets of its name and its value, and none of them if it is left
out. -/
theorem angles_renderAttribute (name value : String) : angles (w.renderAttribute (name, value)) =
    if (w.mark? value).isSome then angles name + angles value else 0 := by
  have hSigns : angles " " = 0 ∧ angles "=" = 0 := by decide
  obtain ⟨hSpace, hEquals⟩ := hSigns
  unfold renderAttribute attributeBetween
  dsimp only
  cases hMark : w.mark? value with
  | none => rfl
  | some mark =>
      have hPlain : angles mark = 0 := angles_eq_zero_iff.2 (w.not_mem_mark value mark hMark)
      simp [hSpace, hEquals, hPlain]

/-- An attribute holds none if neither its name nor its value does. -/
theorem angles_renderAttribute_eq_zero {name value : String} (hName : angles name = 0)
    (hValue : angles value = 0) : angles (w.renderAttribute (name, value)) = 0 := by
  rw [angles_renderAttribute, hName, hValue]
  exact ite_self 0

/-- Attributes without brackets in their names and values bring none to the tag. -/
theorem angles_renderAttributes_eq_zero {attributes : List (String × String)}
    (hNone : ∀ a ∈ attributes, angles a.1 = 0 ∧ angles a.2 = 0) :
    angles (String.join (attributes.map w.renderAttribute)) = 0 := by
  rw [angles_join_eq_zero_iff, List.forall_mem_map]
  intro a hMem
  obtain ⟨hName, hValue⟩ := hNone a hMem
  exact w.angles_renderAttribute_eq_zero hName hValue

/-- An element is one tag, or two around its children, whatever stands between them. -/
theorem angles_render_element {name : String} (hName : angles name = 0)
    (attributes : List (String × String)) (children : List Node) :
    angles (w.render (.element name attributes children)) =
      (if children.isEmpty then 1 else 2) +
        angles (String.join (attributes.map w.renderAttribute)) +
        angles (String.join (children.map w.render)) := by
  have hTags : angles "<" = 1 ∧ angles "/>" = 0 ∧ angles ">" = 0 ∧ angles "</" = 1 := by decide
  obtain ⟨hOpen, hSlash, hEnd, hClose⟩ := hTags
  have hGap : angles w.gap = 0 := angles_eq_zero_iff.2 w.not_mem_gap
  have hAttributes : attributes.map w.renderAttribute =
      attributes.map (attributeBetween w.mark?) := rfl
  cases children with
  | nil => simp [w.render_childless, hAttributes, hName, hOpen, hSlash]
  | cons child rest =>
      rw [w.render_parent, hAttributes]
      simp only [angles_append, angles_intercalate hGap, hName, hOpen, hEnd, hGap, hClose,
        List.isEmpty_cons, Bool.false_eq_true, if_false]
      omega

end Writer

/-- A value can be written unless it holds quotation marks of both kinds. -/
def IsWritable (value : String) : Prop := '"' ∉ value.toList ∨ '\'' ∉ value.toList

instance (value : String) : Decidable (IsWritable value) :=
  inferInstanceAs (Decidable (_ ∨ _))

/-- There is a quotation mark for a value just if it can be written. -/
theorem isSome_quotationMark?_iff (value : String) :
    (Writer.quotationMark? value).isSome ↔ IsWritable value := by
  simp only [Writer.quotationMark?, IsWritable, String.contains_char_eq]
  by_cases hDoubles : '"' ∈ value.toList <;> by_cases hSingles : '\'' ∈ value.toList <;>
    simp [hDoubles, hSingles]

end Metafile.Svg
