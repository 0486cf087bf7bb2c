import Metafile.Proofs.Gdi.Bracket
import Metafile.Proofs.Gdi.Lettering
import Metafile.Proofs.Svg.Canvas

/-! Fonts behind brackets. Restoring a context restores the font that is selected in it, but
a canvas keeps the font that the last text inside the bracket brought along. -/

namespace Metafile

open Gdi

/-- The canvas behind the replay of a picture. -/
def Picture.canvas (p : Picture) (o : Replay.Options) : Svg.Canvas :=
  Svg.Canvas.ofCalls (p.replay o).calls

/-- The texts behind a bracket are those that would be there without it. A family or a size
differs from what it would be without the bracket exactly if the bracket leaves another one
on the canvas and some text inherits it, which no text does that finds a selected font with
a face. -/
theorem Picture.texts_replay_bracket {format : Format} (hFormat : format.isGdi)
    (header : Header) (before : List Record) {save restore : Record} {inside : List Record}
    {level : Int}
    (hBracket : (format.dialect header).Bracket
      ((format.dialect header).after (.initial header.initialMap) before)
      save inside restore level)
    (behind : List Record) (error : Option HeaderError) (o : Replay.Options) :
    let d := format.dialect header
    let outer := d.after (.initial header.initialMap) before
    let bracket := save :: (inside ++ [restore])
    let canvas := fun rs => Picture.canvas ⟨format, some header, rs, error⟩ o
    let kept := (canvas before).lettering
    let left := (canvas (before ++ bracket)).lettering
    let calls := d.drawn outer behind
    left = kept.after (d.drawn outer bracket) ∧
      (canvas (before ++ bracket ++ behind)).texts =
        (canvas (before ++ bracket)).texts ++ left.texts calls ∧
      (canvas (before ++ behind)).texts = (canvas before).texts ++ kept.texts calls ∧
      (left.texts calls).map (·.1) = (kept.texts calls).map (·.1) ∧
      (left.families calls = kept.families calls ↔
        left.family = kept.family ∨ Lettering.inherits Call.setsFamily calls = false) ∧
      (left.sizes calls = kept.sizes calls ↔
        Decimal.text left.size = Decimal.text kept.size ∨
          Lettering.inherits Call.isSetFont calls = false) ∧
      (outer.writesIn (fun font => !font.face.isEmpty) (actionsOf d.reading behind) →
        left.families calls = kept.families calls ∧ left.sizes calls = kept.sizes calls) := by
  intro d outer bracket canvas kept left calls
  have hCanvas : ∀ first second, canvas (first ++ second) =
      (canvas first).after (d.drawn (d.after (.initial header.initialMap) first) second) := by
    intro first second
    simp only [canvas, Picture.canvas, Picture.calls_replay_of_isGdi hFormat]
    rw [d.drawn_append, ← List.append_assoc, Svg.Canvas.ofCalls_append]
  have hAfter : d.after (.initial header.initialMap) (before ++ bracket) = outer := by
    rw [d.after_append]
    exact hBracket.after_eq
  refine ⟨?_, ?_, ?_, ?_, ?_, ?_, ?_⟩
  · simp only [left, kept]
    rw [hCanvas, Svg.Canvas.lettering_after]
  · rw [hCanvas (before ++ bracket), hAfter, Svg.Canvas.texts_after]
  · rw [hCanvas, Svg.Canvas.texts_after]
  · rw [Lettering.texts_map_fst, Lettering.texts_map_fst]
  · exact Lettering.families_eq_iff ..
  · exact Lettering.sizes_eq_iff ..
  · intro hWrites
    have hFamilies : Lettering.inherits Call.setsFamily calls = false :=
      Session.inherits_calls (fun _ _ hFace => hFace) hWrites
    have hSizes : Lettering.inherits Call.isSetFont calls = false :=
      Session.inherits_calls (fun _ _ _ => rfl) hWrites
    exact ⟨(Lettering.families_eq_iff ..).2 (.inr hFamilies),
      (Lettering.sizes_eq_iff ..).2 (.inr hSizes)⟩

/-! A WMF file in which a font is created and, inside a bracket, selected for a text. -/

namespace FontInside

def header : Header := .wmf ⟨none, 1, 9, 0x300, 0, 0, 0, 0⟩

/-- The face of the font is Courier and its height 20. -/
def before : List Record := [⟨0x2FB, 16, 0, 18, #[20, 0, 0, 0, 0, 0, 0, 0, 0x90, 1, 0, 0, 0, 0,
  0, 0, 0, 0, 0x43, 0x6F, 0x75, 0x72, 0x69, 0x65, 0x72, 0]⟩]

def save : Record := ⟨0x1E, 3, 0, 50, #[]⟩

def select : Record := ⟨0x12D, 4, 0, 56, #[0, 0]⟩

def write : Record := ⟨0x521, 7, 0, 64, #[1, 0, 0x41, 0, 0, 0, 0, 0]⟩

def restore : Record := ⟨0x127, 4, 0, 78, #[0xFF, 0xFF]⟩

def outer : Session := Wmf.dialect.after (.initial header.initialMap) before

/-- Saving, selecting a font, writing and restoring is a bracket. -/
theorem bracket : Wmf.dialect.Bracket outer save [select, write] restore (-1) where
  saves := rfl
  restores := ⟨rfl, by decide, by decide⟩
  not_recording := rfl
  depth_le part hPart := by
    have hTake : ∀ n < 3, 1 ≤ (Wmf.dialect.after outer
        (save :: [select, write].take n)).saved.length := by
      decide
    rw [List.prefix_iff_eq_take.1 hPart]
    exact hTake _ (Nat.lt_succ_of_le hPart.length_le)
  effect_ne := by decide
  level_eq := .inr ⟨1, by decide, by decide⟩

/-- The texts of the file with more records behind the bracket. -/
def canvas (rs : List Record) : Svg.Canvas :=
  Picture.canvas ⟨.wmf, some header, rs, none⟩ .standard

end FontInside

open FontInside in
/-- A text behind the bracket that selects the font for itself. -/
theorem texts_replay_bracket_fontSelected :
    let bracket := save :: ([select, write] ++ [restore])
    let calls := Wmf.dialect.drawn outer [select, write]
    Format.wmf.isGdi ∧ Wmf.dialect.Bracket outer save [select, write] restore (-1) ∧
      outer.writesIn (fun font => !font.face.isEmpty)
        (actionsOf Wmf.dialect.reading [select, write]) ∧
      (canvas (before ++ bracket)).lettering.families calls =
        (canvas before).lettering.families calls := by
  have hWrites : outer.writesIn (fun font => !font.face.isEmpty)
      (actionsOf Wmf.dialect.reading [select, write]) := by decide +kernel
  obtain ⟨-, -, -, -, -, -, hSame⟩ := @Picture.texts_replay_bracket .wmf rfl header before save
    restore [select, write] (-1) bracket [select, write] none .standard
  exact ⟨rfl, bracket, hWrites, (hSame hWrites).1⟩

open FontInside in
/-- A text behind the bracket for which no font is selected. It is written in the font of
the text inside. -/
theorem families_fontInside :
    let bracket := save :: ([select, write] ++ [restore])
    Format.wmf.isGdi ∧ Wmf.dialect.Bracket outer save [select, write] restore (-1) ∧
      (canvas (before ++ bracket ++ [write])).texts.map (·.2.family) = ["Courier", "Courier"] ∧
      (canvas (before ++ [write])).texts.map (·.2.family) = ["Arial"] :=
  ⟨rfl, bracket, by decide +kernel, by decide +kernel⟩

end Metafile
