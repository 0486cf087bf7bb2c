import Metafile.Proofs.Emf.Poly

/-! WMF records of one polygon and of several. Their points are stored like those of EMF records
with 16-bit coordinates, but their number is stored in 16 bits too. -/

namespace Metafile.Wmf

open Bytes (Field ofFields)
open Emf (Width)
open Gdi

/-- The points of a polygon behind their number. -/
def polygonFields (ring : List (Point Int)) : List Field :=
  ⟨2, ring.length⟩ :: ring.flatMap Width.short.pointFields

/-- The number of polygons, the length of each, and the points. -/
def polygonsFields (rings : List (List (Point Int))) : List Field :=
  ⟨2, rings.length⟩ :: (rings.flatMap fun ring => [⟨2, ring.length⟩]) ++
    rings.flatten.flatMap Width.short.pointFields

/-- The record is a polygon with the points. -/
structure HoldsPolygon (ring : List (Point Int)) (r : Record) : Prop where
  kind : Kind.ofCode? (r.opcode % 0x10000) = some .polygon
  payload : r.payload.HasPart 0 (ofFields (polygonFields ring))

/-- The record holds the polygons. -/
structure HoldsPolygons (rings : List (List (Point Int))) (r : Record) : Prop where
  kind : Kind.ofCode? (r.opcode % 0x10000) = some .polyPolygon
  payload : r.payload.HasPart 0 (ofFields (polygonsFields rings))

section

variable {p : Bytes}

/-- A polygon is read just if its number of points is not negative and the payload is as long
as its points are many. -/
theorem countedPoints_eq_ok_iff {points : List (Point Float)} :
    countedPoints p = .ok points ↔
      0 ≤ p.i16At 0 ∧ 2 + 4 * (p.i16At 0).toNat ≤ p.size ∧
        Layout.shortPoint.list p 2 (p.i16At 0).toNat = points := by
  simp only [countedPoints, Bytes.need_bind_eq_ok_iff]
  by_cases hNegative : p.i16At 0 < 0
  · simp [hNegative, throw, throwThe, MonadExceptOf.throw, bind, Except.bind]
  · simp only [hNegative, if_false, Bytes.need_bind_eq_ok_iff, pure, Except.pure, Except.ok.injEq]
    constructor
    · rintro ⟨-, hSize, hPoints⟩
      exact ⟨Int.not_lt.1 hNegative, hSize, hPoints⟩
    · rintro ⟨-, hSize, hPoints⟩
      exact ⟨by omega, hSize, hPoints⟩

/-- The same for several polygons and all their points. -/
theorem countedPolygons_eq_ok_iff {rings : List (List (Point Float))} :
    countedPolygons p = .ok rings ↔
      2 + 2 * p.u16At 0 + 4 * Layout.total (Layout.word.list p 2 (p.u16At 0)) ≤ p.size ∧
        Layout.shortPoint.lists p (2 + 2 * p.u16At 0) (Layout.word.list p 2 (p.u16At 0)) =
          rings := by
  simp only [countedPolygons, Bytes.need_bind_eq_ok_iff, pure, Except.pure, Except.ok.injEq]
  constructor
  · rintro ⟨-, -, hSize, hRings⟩
    exact ⟨hSize, hRings⟩
  · rintro ⟨hSize, hRings⟩
    exact ⟨by omega, by omega, hSize, hRings⟩

theorem stores_ringLength (ring : List (Point Int)) :
    Layout.word.Stores (fun ring : List (Point Int) => [⟨2, ring.length⟩]) List.length ring where
  width := rfl
  read _ _ hFields := hFields.1

/-- The points that a payload holds are read from it. -/
theorem countedPoints_of_hasPart {ring : List (Point Int)}
    (hRoom : ∀ point ∈ ring, Width.short.HasRoom point) (hCount : ring.length < 2 ^ 15)
    (hPart : p.HasPart 0 (ofFields (polygonFields ring))) :
    countedPoints p = .ok (ring.map Point.ofInts) := by
  have hStores : ∀ point ∈ ring,
      Width.short.layout.Stores Width.short.pointFields Point.ofInts point :=
    fun point hMem => Width.short.stores_point (hRoom point hMem)
  have hFits : ∀ f ∈ polygonFields ring, f.Fits :=
    List.forall_mem_cons.2
      ⟨Nat.lt_trans hCount (show 2 ^ 15 < 2 ^ 16 by decide), Width.short.fits_points ring⟩
  obtain ⟨hNumber, hPoints⟩ := hPart.holdsFields hFits
  have hLength : p.i16At 0 = ring.length := Bytes.i16At_of_field hCount hNumber
  have hEnd := hPart.end_le
  rw [Bytes.size_ofFields, polygonFields, List.map_cons, List.sum_cons,
    Layout.width_flatMap hStores] at hEnd
  have hSize : 0 + (2 + 4 * ring.length) ≤ p.size := hEnd
  rw [countedPoints_eq_ok_iff, hLength, Int.toNat_natCast]
  exact ⟨Int.natCast_nonneg _, by omega, Layout.list_eq hStores hPoints⟩

/-- Rings are read back from their lengths and their points. Rings without points are among
them. -/
theorem countedPolygons_of_hasPart {rings : List (List (Point Int))}
    (hRoom : ∀ point ∈ rings.flatten, Width.short.HasRoom point) (hRings : rings.length < 2 ^ 16)
    (hCounts : ∀ ring ∈ rings, ring.length < 2 ^ 16)
    (hPart : p.HasPart 0 (ofFields (polygonsFields rings))) :
    countedPolygons p = .ok (rings.map (List.map Point.ofInts)) := by
  have hStores : ∀ point ∈ rings.flatten,
      Width.short.layout.Stores Width.short.pointFields Point.ofInts point :=
    fun point hMem => Width.short.stores_point (hRoom point hMem)
  have hWords : ∀ ring ∈ rings,
      Layout.word.Stores (fun ring : List (Point Int) => [⟨2, ring.length⟩]) List.length ring :=
    fun ring _ => stores_ringLength ring
  have hLengthsFit : ∀ f ∈ rings.flatMap (fun ring => [(⟨2, ring.length⟩ : Field)]), f.Fits := by
    intro f hMem
    obtain ⟨ring, hRing, hField⟩ := List.mem_flatMap.1 hMem
    obtain rfl := List.mem_singleton.1 hField
    exact hCounts ring hRing
  have hFits : ∀ f ∈ polygonsFields rings, f.Fits :=
    List.forall_mem_append.2
      ⟨List.forall_mem_cons.2 ⟨hRings, hLengthsFit⟩, Width.short.fits_points _⟩
  have hFields := hPart.holdsFields hFits
  have hEnd := hPart.end_le
  rw [polygonsFields, Bytes.holdsFields_append] at hFields
  rw [Bytes.size_ofFields, polygonsFields, List.map_append, List.map_cons, List.sum_append,
    List.sum_cons, Layout.width_flatMap hWords, Layout.width_flatMap hStores] at hEnd
  obtain ⟨⟨hNumber, hLengths⟩, hPoints⟩ := hFields
  rw [List.map_cons, List.sum_cons, Layout.width_flatMap hWords] at hPoints
  have hCount : p.u16At 0 = rings.length := hNumber
  have hList : Layout.word.list p 2 rings.length = rings.map List.length :=
    Layout.list_eq hWords hLengths
  have hSize : 0 + (2 + 2 * rings.length + 4 * rings.flatten.length) ≤ p.size := hEnd
  have hRead :
      Width.short.layout.lists p (0 + (2 + 2 * rings.length)) (rings.map List.length) = _ :=
    Layout.lists_eq hStores hPoints
  have hTotal : Layout.total (rings.map List.length) = rings.flatten.length :=
    List.length_flatten.symm
  rw [Nat.zero_add] at hRead
  rw [countedPolygons_eq_ok_iff, hCount, hList, hTotal]
  exact ⟨by omega, hRead⟩

end

theorem actions_polygon (p : Bytes) :
    actions .polygon p = (countedPoints p).map fun points => [.polygon points] := rfl

/-- A record of several rings asks for one polygon for each. -/
theorem actions_polyPolygon (p : Bytes) :
    actions .polyPolygon p = (countedPolygons p).map fun rings => rings.map .polygon := rfl

variable {r : Record}

/-- A record with a ring in its layout asks for the polygon with the same points. Their number is
signed here, so that it has to be less than half of a word. -/
theorem HoldsPolygon.reading_eq {ring : List (Point Int)} (hHolds : HoldsPolygon ring r)
    (hRoom : ∀ point ∈ ring, Width.short.HasRoom point) (hCount : ring.length < 2 ^ 15) :
    dialect.reading r = ⟨[.polygon (ring.map Point.ofInts)], .done⟩ := by
  have hRead := countedPoints_of_hasPart hRoom hCount hHolds.payload
  exact Dialect.reading_of_ok (d := dialect) hHolds.kind (actions_polygon _) hRead

/-- A record with several rings asks for their polygons in order. -/
theorem HoldsPolygons.reading_eq {rings : List (List (Point Int))} (hHolds : HoldsPolygons rings r)
    (hRoom : ∀ point ∈ rings.flatten, Width.short.HasRoom point) (hRings : rings.length < 2 ^ 16)
    (hCounts : ∀ ring ∈ rings, ring.length < 2 ^ 16) :
    dialect.reading r =
      ⟨(rings.map (List.map Point.ofInts)).map .polygon, .done⟩ := by
  have hRead := countedPolygons_of_hasPart hRoom hRings hCounts hHolds.payload
  exact Dialect.reading_of_ok (d := dialect) hHolds.kind (actions_polyPolygon _) hRead

end Metafile.Wmf
