import Mathlib.Data.List.Forall2
import Metafile.Proofs.Wmf.Poly

/-! Records of several figures and the records of their figures. Main statement: both draw the
same and leave the same session, inside a path as well as outside, and a record whose lengths or
points run past its payload draws nothing. -/

namespace Metafile

namespace Gdi.Dialect

variable (d : Dialect)

/-- A record of several figures is the sequence of the records of its figures. All of them
succeed. Each figure has the points of its own record, and both ways make the same calls and
leave the same session, whatever the session before them. -/
structure IsSequence (figure : List (Point Float) → Action) (figures : List (List (Point Float)))
    (whole : Record) (parts : List Record) : Prop where
  reading : d.reading whole = ⟨figures.map figure, .done⟩
  parts_reading : parts.map d.reading = figures.map fun points => ⟨[figure points], .done⟩
  drawn : ∀ s, d.drawn s [whole] = d.drawn s parts
  after : ∀ s, d.after s [whole] = d.after s parts

/-- With enough bytes a record cuts the points of its payload into figures of the given lengths,
and without them it fails, draws nothing and leaves the session as it is. -/
structure Splits (figure : List (Point Float) → Action) (lengths : List Nat)
    (points : List (Point Float)) (Enough : Prop) (r : Record) : Prop where
  done : Enough → ∃ figures : List (List (Point Float)),
    d.reading r = ⟨figures.map figure, .done⟩ ∧
      figures.map List.length = lengths ∧ figures.flatten = points
  refused : ¬Enough → Session.plotter.Refuses d.reading r

variable {d} {figure : List (Point Float) → Action}

/-- If the whole record asks for one figure after the other and each of the parts for one of
them, the whole draws what its parts draw, in every session. -/
theorem isSequence_of_readings {figures : List (List (Point Float))} {whole : Record}
    {parts : List Record} (hWhole : d.reading whole = ⟨figures.map figure, .done⟩)
    (hParts : parts.map d.reading = figures.map fun points => ⟨[figure points], .done⟩) :
    d.IsSequence figure figures whole parts := by
  have hSame : actionsOf d.reading [whole] = actionsOf d.reading parts :=
    calc
      actionsOf d.reading [whole] = figures.map figure := by simp [actionsOf, hWhole]
      _ = (parts.map d.reading).flatMap Reading.actions := by
        rw [hParts, List.flatMap_map, List.map_eq_flatMap]
      _ = actionsOf d.reading parts := List.flatMap_map ..
  refine ⟨hWhole, hParts, fun s => ?_, fun s => ?_⟩
  · rw [Dialect.drawn, Plotter.drawn, hSame]
    rfl
  · rw [Dialect.after, Plotter.after, hSame]
    rfl

/-- The readings of the records of figures, one for each. -/
theorem map_reading_of_forall₂ {Holds : List (Point Int) → Record → Prop}
    {figures : List (List (Point Int))} {parts : List Record}
    (hEach : ∀ points ∈ figures, ∀ r, Holds points r →
      d.reading r = ⟨[figure (points.map Point.ofInts)], .done⟩)
    (hParts : List.Forall₂ Holds figures parts) :
    parts.map d.reading =
      (figures.map (List.map Point.ofInts)).map fun points => ⟨[figure points], .done⟩ := by
  induction hParts with
  | nil => rfl
  | cons hHolds _ ih =>
      obtain ⟨hFirst, hRest⟩ := List.forall_mem_cons.1 hEach
      rw [List.map_cons, List.map_cons, List.map_cons, hFirst _ hHolds, ih hRest]

variable {r : Record} {kind : d.Kind} {read : Except Fault (List (List (Point Float)))}
  {layout : Layout (Point Float)} {start : Nat} {lengths : List Nat} {Enough : Prop}

/-- What is read just if there are enough bytes splits the points. -/
theorem splits_of_read (hKind : d.kind? r = some kind)
    (hActions : d.actions kind r.payload = read.map fun figures => figures.map figure)
    (hRead : ∀ figures,
      read = .ok figures ↔ Enough ∧ layout.lists r.payload start lengths = figures) :
    d.Splits figure lengths (layout.list r.payload start (Layout.total lengths)) Enough r := by
  constructor
  · intro hEnough
    have hLists := (hRead _).2 ⟨hEnough, rfl⟩
    exact ⟨_, reading_of_ok hKind hActions hLists, layout.length_lists .., layout.flatten_lists ..⟩
  · intro hShort
    rwa [refuses_iff hKind hActions, ne_ok_iff hRead]

end Gdi.Dialect

open Gdi

namespace Emf.PolyPoly

/-- The kind of the records of one figure. -/
def part : PolyPoly → Poly
  | polyPolyline => .polyline
  | polyPolygon => .polygon

/-- What one figure asks for. -/
def figure : PolyPoly → List (Point Float) → Action
  | polyPolyline => .polyline
  | polyPolygon => .polygon

variable (poly : PolyPoly)

/-- A record of several shapes asks for one figure for each of them. -/
theorem actions_eq_map (figures : List (List (Point Float))) :
    poly.actions figures = figures.map poly.figure := by
  cases poly <;> rfl

/-- And a record of a single shape for this one. -/
theorem actions_part (points : List (Point Float)) :
    poly.part.actions points = [poly.figure points] := by
  cases poly <;> rfl

end Emf.PolyPoly

open Bytes (ofFields)
open Emf (Width PolyPoly)

/-- A record of several polygons fails just if one of its lengths or its points are missing, and
otherwise comes to the same as records of its polygons one by one. -/
theorem Wmf.splits {r : Record}
    (hKind : Wmf.Kind.ofCode? (r.opcode % 0x10000) = some .polyPolygon) :
    let p := r.payload
    let lengths := Layout.word.list p 2 (p.u16At 0)
    Wmf.dialect.Splits .polygon lengths
      (Layout.shortPoint.list p (2 + 2 * p.u16At 0) (Layout.total lengths))
      (2 + 2 * p.u16At 0 + 4 * Layout.total lengths ≤ p.size) r :=
  Dialect.splits_of_read (d := Wmf.dialect) hKind (Wmf.actions_polyPolygon _)
    fun _ => Wmf.countedPolygons_eq_ok_iff

/-- The same for both shapes and both widths of EMF. -/
theorem Emf.splits (limit : Nat) {poly : PolyPoly} {w : Width} {r : Record}
    (hKind : Emf.Kind.ofCode? r.opcode = some (poly.kind w)) :
    let p := r.payload
    let lengths := Layout.dword.list p 24 (p.u32At 16)
    (Emf.dialect limit).Splits poly.figure lengths
      (w.layout.list p (24 + 4 * p.u32At 16) (Layout.total lengths))
      (24 + 4 * p.u32At 16 + 2 * w.bytes * p.u32At 20 ≤ p.size ∧
        Layout.total lengths = p.u32At 20) r := by
  have hActions : (Emf.dialect limit).actions (poly.kind w) r.payload =
      (Emf.pointGroups w.layout r.payload).map fun figures => figures.map poly.figure := by
    simp only [← PolyPoly.actions_eq_map]
    exact PolyPoly.actions_kind poly w r.payload
  refine Dialect.splits_of_read hKind hActions fun figures => ?_
  rw [Emf.pointGroups_eq_ok_iff, w.size_layout]

/-- A record of several figures is the sequence of the records of its figures, in WMF and in
both widths of EMF. Whatever its payload holds, it gives each figure its own stretch of the
points, or it fails and draws nothing. -/
theorem polyPoly_isSequence :
    (∀ (rings : List (List (Point Int))) (whole : Record) (parts : List Record),
      rings.length < 2 ^ 16 → (∀ ring ∈ rings, ring.length ≤ 32767) →
      (∀ point ∈ rings.flatten, Width.short.HasRoom point) →
      Wmf.HoldsPolygons rings whole → List.Forall₂ Wmf.HoldsPolygon rings parts →
      Wmf.dialect.IsSequence .polygon (rings.map (List.map Point.ofInts)) whole parts) ∧
    (∀ (limit : Nat) (poly : PolyPoly) (w : Width) (figures : List (List (Point Int)))
      (whole : Record) (parts : List Record),
      figures.length < 2 ^ 32 → figures.flatten.length < 2 ^ 32 →
      (∀ point ∈ figures.flatten, w.HasRoom point) →
      poly.Holds w figures whole → List.Forall₂ (poly.part.Holds w) figures parts →
      (Emf.dialect limit).IsSequence poly.figure (figures.map (List.map Point.ofInts)) whole
        parts) ∧
    (∀ r : Record, Wmf.Kind.ofCode? (r.opcode % 0x10000) = some .polyPolygon →
      let p := r.payload
      let lengths := Layout.word.list p 2 (p.u16At 0)
      Wmf.dialect.Splits .polygon lengths
        (Layout.shortPoint.list p (2 + 2 * p.u16At 0) (Layout.total lengths))
        (2 + 2 * p.u16At 0 + 4 * Layout.total lengths ≤ p.size) r) ∧
    ∀ (limit : Nat) (poly : PolyPoly) (w : Width) (r : Record),
      Emf.Kind.ofCode? r.opcode = some (poly.kind w) →
      let p := r.payload
      let lengths := Layout.dword.list p 24 (p.u32At 16)
      (Emf.dialect limit).Splits poly.figure lengths
        (w.layout.list p (24 + 4 * p.u32At 16) (Layout.total lengths))
        (24 + 4 * p.u32At 16 + 2 * w.bytes * p.u32At 20 ≤ p.size ∧
          Layout.total lengths = p.u32At 20) r := by
  refine ⟨?_, ?_, fun r => Wmf.splits, fun limit poly w r => Emf.splits limit⟩
  · intro rings whole parts hRings hCounts hRoom hWhole hParts
    have hShort : ∀ ring ∈ rings, ring.length < 2 ^ 15 :=
      fun ring hRing => Nat.lt_succ_of_le (hCounts ring hRing)
    refine Dialect.isSequence_of_readings ?_ (Dialect.map_reading_of_forall₂ ?_ hParts)
    · refine hWhole.reading_eq hRoom hRings fun ring hRing => ?_
      exact Nat.lt_trans (hShort ring hRing) (by decide)
    · intro ring hRing r hHolds
      exact hHolds.reading_eq
        (fun point hPoint => hRoom point (List.mem_flatten_of_mem hRing hPoint))
        (hShort ring hRing)
  · intro limit poly w figures whole parts hFigures hCount hRoom hWhole hParts
    refine Dialect.isSequence_of_readings ?_ (Dialect.map_reading_of_forall₂ ?_ hParts)
    · rw [hWhole.reading_of_room hRoom hFigures hCount, poly.actions_eq_map]
    · intro points hPoints r hHolds
      have hLength : points.length < 2 ^ 32 :=
        Nat.lt_of_le_of_lt (List.sublist_flatten_of_mem hPoints).length_le hCount
      rw [hHolds.reading_of_room
        (fun point hPoint => hRoom point (List.mem_flatten_of_mem hPoints hPoint)) hLength,
        poly.actions_part]

/-- Three rings, one of them empty, as polygons of WMF and as lines of EMF with bytes behind
their points. Without its last byte the record of the polygons draws nothing. -/
theorem polyPoly_isSequence_emptyRing :
    let rings : List (List (Point Int)) := [[⟨0, 0⟩, ⟨10, 0⟩, ⟨10, 10⟩], [], [⟨-5, 7⟩]]
    let drawn : List (List (Point Float)) := rings.map (List.map Point.ofInts)
    let bounds : Bytes := Array.replicate 16 0
    let polygons : Record := ⟨0x0538, 0, 0, 18, ofFields (Wmf.polygonsFields rings)⟩
    let rest : List Record := rings.map fun ring =>
      ⟨0x0324, 0, 0, 18, ofFields (Wmf.polygonFields ring)⟩
    let lines : Record :=
      ⟨7, 0, 0, 108, bounds ++ ofFields (Width.long.groupsFields rings) ++ #[1, 2, 3, 4]⟩
    let chains : List Record := rings.map fun ring =>
      ⟨4, 0, 0, 108, bounds ++ ofFields (Width.long.pointsFields ring) ++ #[5, 6]⟩
    let cut : Record := { polygons with payload := polygons.payload.pop }
    Wmf.dialect.IsSequence .polygon drawn polygons rest ∧
      (Emf.dialect 1).IsSequence .polyline drawn lines chains ∧
      Session.plotter.Refuses Wmf.dialect.reading cut := by
  intro rings drawn bounds polygons rest lines chains cut
  obtain ⟨hWmf, hEmf, hSplits, -⟩ := polyPoly_isSequence
  have hPolygons : Wmf.HoldsPolygons rings polygons := ⟨rfl, Bytes.hasPart_self _⟩
  have hRest : List.Forall₂ Wmf.HoldsPolygon rings rest := by
    simp only [rest, List.forall₂_map_right_iff, List.forall₂_same]
    exact fun ring _ => ⟨rfl, Bytes.hasPart_self _⟩
  have hLines : PolyPoly.polyPolyline.Holds .long rings lines := ⟨rfl, bounds, _, rfl, rfl⟩
  have hChains : List.Forall₂ (PolyPoly.polyPolyline.part.Holds .long) rings chains := by
    simp only [chains, List.forall₂_map_right_iff, List.forall₂_same]
    exact fun ring _ => ⟨rfl, bounds, _, rfl, rfl⟩
  have hCut := (hSplits cut rfl).refused (by decide +kernel)
  exact ⟨hWmf rings polygons rest (by decide) (by decide) (by decide) hPolygons hRest,
    hEmf 1 .polyPolyline .long rings lines chains (by decide) (by decide) (by decide) hLines
      hChains, hCut⟩

end Metafile
