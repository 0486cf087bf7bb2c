import Metafile.Proofs.Gdi.Dialect
import Metafile.Proofs.Record.Settled
import Metafile.Proofs.Record.Stored

/-! Records of many points. Each of their kinds exists with 16-bit and with 32-bit coordinates.
Where both hold the same points, they ask for the same actions, and both fail on a payload
that is shorter than it declares. -/

namespace Metafile.Emf

open Bytes (Field ofFields)
open Gdi

/-- Whether a coordinate takes two bytes or four. -/
inductive Width where
  | short
  | long

namespace Width

def bytes : Width → Nat
  | short => 2
  | long => 4

def layout : Width → Layout (Point Float)
  | short => .shortPoint
  | long => .longPoint

variable (w : Width)

/-- A point takes two coordinates of the width, so that points can be counted in bytes. -/
theorem size_layout : w.layout.size = 2 * w.bytes := by
  cases w <;> rfl

def coordinate (value : Int) : Field := ⟨w.bytes, twosComplement (8 * w.bytes) value⟩

def pointFields (point : Point Int) : List Field := [w.coordinate point.x, w.coordinate point.y]

/-- Points behind their number. -/
def pointsFields (points : List (Point Int)) : List Field :=
  ⟨4, points.length⟩ :: points.flatMap w.pointFields

/-- The number of groups, the number of all points, the length of each group, and the points. -/
def groupsFields (groups : List (List (Point Int))) : List Field :=
  [⟨4, groups.length⟩, ⟨4, groups.flatten.length⟩] ++
    (groups.flatMap fun group => [⟨4, group.length⟩]) ++ groups.flatten.flatMap w.pointFields

end Width

/-- The coordinates have room in 16 bits. -/
def IsShort (point : Point Int) : Prop :=
  ∀ value ∈ [point.x, point.y], -2 ^ 15 ≤ value ∧ value < 2 ^ 15

instance (point : Point Int) : Decidable (IsShort point) :=
  inferInstanceAs (Decidable (∀ value ∈ [point.x, point.y], -2 ^ 15 ≤ value ∧ value < 2 ^ 15))

/-- The coordinates have room in the width. -/
def Width.HasRoom (w : Width) (point : Point Int) : Prop :=
  ∀ value ∈ [point.x, point.y],
    -2 ^ (8 * w.bytes - 1) ≤ value ∧ value < 2 ^ (8 * w.bytes - 1)

instance (w : Width) (point : Point Int) : Decidable (w.HasRoom point) :=
  inferInstanceAs (Decidable (∀ value ∈ [point.x, point.y],
    -2 ^ (8 * w.bytes - 1) ≤ value ∧ value < 2 ^ (8 * w.bytes - 1)))

/-- The kinds of records of one figure. -/
inductive Poly where
  | polyline
  | polygon
  | polyLineTo
  | polyBezier
  | polyBezierTo

namespace Poly

def kind : Poly → Width → Kind
  | polyline, .short => .polyline16
  | polyline, .long => .polyline
  | polygon, .short => .polygon16
  | polygon, .long => .polygon
  | polyLineTo, .short => .polyLineTo16
  | polyLineTo, .long => .polyLineTo
  | polyBezier, .short => .polyBezier16
  | polyBezier, .long => .polyBezier
  | polyBezierTo, .short => .polyBezierTo16
  | polyBezierTo, .long => .polyBezierTo

/-- What a record asks for that holds the points. -/
def actions : Poly → List (Point Float) → List Action
  | polyline, points => [.polyline points]
  | polygon, points => [.polygon points]
  | polyLineTo, points => [.polylineTo points]
  | polyBezier, points => bezier points
  | polyBezierTo, points => [.bezierTo points]

/-- The record is of the kind and holds the points behind its bounding box. -/
structure Holds (poly : Poly) (w : Width) (points : List (Point Int)) (r : Record) : Prop where
  kind : Kind.ofCode? r.opcode = some (poly.kind w)
  payload : r.payload.HasPart boundsSize (ofFields (w.pointsFields points))

end Poly

/-- The kinds of records of several figures. -/
inductive PolyPoly where
  | polyPolyline
  | polyPolygon

namespace PolyPoly

def kind : PolyPoly → Width → Kind
  | polyPolyline, .short => .polyPolyline16
  | polyPolyline, .long => .polyPolyline
  | polyPolygon, .short => .polyPolygon16
  | polyPolygon, .long => .polyPolygon

/-- What a record asks for that holds the groups of points. -/
def actions : PolyPoly → List (List (Point Float)) → List Action
  | polyPolyline, groups => groups.map .polyline
  | polyPolygon, groups => groups.map .polygon

structure Holds (poly : PolyPoly) (w : Width) (groups : List (List (Point Int))) (r : Record) :
    Prop where
  kind : Kind.ofCode? r.opcode = some (poly.kind w)
  payload : r.payload.HasPart boundsSize (ofFields (w.groupsFields groups))

end PolyPoly

/-- Both records succeed and ask for the actions. They make the same calls and leave the same
session, whatever the session before them. -/
structure DrawAlike (limit : Nat) (asked : List Action) (r r' : Record) : Prop where
  reading : (dialect limit).reading r = ⟨asked, .done⟩
  reading' : (dialect limit).reading r' = ⟨asked, .done⟩
  drawn : ∀ s, (dialect limit).drawn s [r] = (dialect limit).drawn s [r']
  after : ∀ s, (dialect limit).after s [r] = (dialect limit).after s [r']

section

variable (w : Width)

/-- A coordinate is stored in the room that its field has, also if it is negative. -/
theorem Width.fits_coordinate (value : Int) : (w.coordinate value).Fits := by
  cases w <;> exact twosComplement_lt _ value

/-- A coordinate that has room in the width is read back with its sign. -/
theorem Width.signed_coordinate {value : Int} (hLow : -2 ^ (8 * w.bytes - 1) ≤ value)
    (hHigh : value < 2 ^ (8 * w.bytes - 1)) :
    signed (8 * w.bytes) (w.coordinate value).value = value := by
  cases w <;> exact signed_twosComplement (by decide) hLow hHigh

/-- Small coordinates have room in either width. -/
theorem Width.hasRoom_of_isShort {point : Point Int} (hShort : IsShort point) :
    w.HasRoom point := by
  intro value hMem
  obtain ⟨hLow, hHigh⟩ := hShort value hMem
  cases w <;> simp only [bytes] <;> omega

/-- A point is read as two signed fields, its abscissa first. Both widths are treated alike here,
and nothing below asks which of them it is. -/
theorem Width.read_layout (data : Bytes) (start : Nat) :
    w.layout.read data start =
      .ofInts ⟨signed (8 * w.bytes) (data.field start w.bytes),
        signed (8 * w.bytes) (data.field (start + w.bytes) w.bytes)⟩ := by
  cases w <;> rfl

/-- Points with room in the width are read back from their fields as they were stored. -/
theorem Width.stores_point {point : Point Int} (hRoom : w.HasRoom point) :
    w.layout.Stores w.pointFields Point.ofInts point where
  width := by cases w <;> rfl
  read data start hFields := by
    obtain ⟨hX, hY, -⟩ := hFields
    obtain ⟨hXLow, hXHigh⟩ := hRoom point.x List.mem_cons_self
    obtain ⟨hYLow, hYHigh⟩ := hRoom point.y (List.mem_cons_of_mem _ List.mem_cons_self)
    have hXRead : data.field start w.bytes = (w.coordinate point.x).value := hX
    have hYRead : data.field (start + w.bytes) w.bytes = (w.coordinate point.y).value := hY
    rw [w.read_layout, hXRead, hYRead, w.signed_coordinate hXLow hXHigh,
      w.signed_coordinate hYLow hYHigh]

/-- The lengths of groups are stored as 32-bit numbers in records of both widths. -/
theorem stores_length {α : Type} (group : List α) :
    Layout.dword.Stores (fun group : List α => [⟨4, group.length⟩]) List.length group where
  width := rfl
  read _ _ hFields := hFields.1

/-- The fields of any points have room for their values, since coordinates are cut to their
width. -/
theorem Width.fits_points (points : List (Point Int)) :
    ∀ f ∈ points.flatMap w.pointFields, f.Fits := by
  intro f hMem
  obtain ⟨point, -, hField⟩ := List.mem_flatMap.1 hMem
  simp only [pointFields, List.mem_cons, List.not_mem_nil, or_false] at hField
  rcases hField with rfl | rfl <;> exact w.fits_coordinate _

/-- The same holds for groups of points with their lengths in front, as long as the numbers of
groups and of points have room in 32 bits. -/
theorem Width.fits_groups {groups : List (List (Point Int))} (hGroups : groups.length < 2 ^ 32)
    (hCount : groups.flatten.length < 2 ^ 32) : ∀ f ∈ w.groupsFields groups, f.Fits := by
  intro f hMem
  rcases List.mem_append.1 hMem with hMem | hPoint
  · rcases List.mem_append.1 hMem with hNumber | hLength
    · simp only [List.mem_cons, List.not_mem_nil, or_false] at hNumber
      rcases hNumber with rfl | rfl
      · exact hGroups
      · exact hCount
    · obtain ⟨group, hGroup, hField⟩ := List.mem_flatMap.1 hLength
      obtain rfl := List.mem_singleton.1 hField
      exact Nat.lt_of_le_of_lt (List.sublist_flatten_of_mem hGroup).length_le hCount
  · exact w.fits_points _ f hPoint

end

section

variable {w : Width} {p : Bytes}

/-- A figure is read just if the payload is as long as its points are many. -/
theorem points_eq_ok_iff {layout : Layout (Point Float)} {points : List (Point Float)} :
    Emf.points layout p = .ok points ↔
      20 + layout.size * p.u32At 16 ≤ p.size ∧ layout.list p 20 (p.u32At 16) = points := by
  simp only [Emf.points, boundsSize, Bytes.need_bind_eq_ok_iff, pure, Except.pure, Except.ok.injEq,
    Nat.reduceAdd]
  constructor
  · rintro ⟨-, hSize, hPoints⟩
    exact ⟨hSize, hPoints⟩
  · rintro ⟨hSize, hPoints⟩
    exact ⟨by omega, hSize, hPoints⟩

/-- The same for several figures, whose lengths must make up the number of points. -/
theorem pointGroups_eq_ok_iff {layout : Layout (Point Float)}
    {groups : List (List (Point Float))} :
    pointGroups layout p = .ok groups ↔
      (24 + 4 * p.u32At 16 + layout.size * p.u32At 20 ≤ p.size ∧
        Layout.total (Layout.dword.list p 24 (p.u32At 16)) = p.u32At 20) ∧
        layout.lists p (24 + 4 * p.u32At 16) (Layout.dword.list p 24 (p.u32At 16)) = groups := by
  simp only [pointGroups, boundsSize, Bytes.need_bind_eq_ok_iff, Nat.reduceAdd]
  by_cases hTotal : Layout.total (Layout.dword.list p 24 (p.u32At 16)) = p.u32At 20
  · simp only [hTotal, ne_eq, not_true_eq_false, if_false, Bytes.need_bind_eq_ok_iff, pure,
      Except.pure, Except.ok.injEq]
    constructor
    · rintro ⟨-, -, hSize, hGroups⟩
      exact ⟨⟨hSize, trivial⟩, hGroups⟩
    · rintro ⟨⟨hSize, -⟩, hGroups⟩
      exact ⟨by omega, by omega, hSize, hGroups⟩
  · simp [hTotal, throw, throwThe, MonadExceptOf.throw, bind, Except.bind]

/-- The points that a payload holds are read from it. -/
theorem points_of_hasPart {points : List (Point Int)} (hRoom : ∀ point ∈ points, w.HasRoom point)
    (hCount : points.length < 2 ^ 32)
    (hPart : p.HasPart boundsSize (ofFields (w.pointsFields points))) :
    Emf.points w.layout p = .ok (points.map Point.ofInts) := by
  have hStores : ∀ point ∈ points, w.layout.Stores w.pointFields Point.ofInts point :=
    fun point hMem => w.stores_point (hRoom point hMem)
  have hFits : ∀ f ∈ w.pointsFields points, f.Fits :=
    List.forall_mem_cons.2 ⟨hCount, w.fits_points points⟩
  obtain ⟨hNumber, hPoints⟩ := hPart.holdsFields hFits
  have hLength : p.u32At 16 = points.length := hNumber
  have hEnd := hPart.end_le
  rw [Bytes.size_ofFields, Width.pointsFields, List.map_cons, List.sum_cons,
    Layout.width_flatMap hStores] at hEnd
  rw [points_eq_ok_iff, hLength]
  have hSize : 16 + (4 + w.layout.size * points.length) ≤ p.size := hEnd
  exact ⟨by omega, Layout.list_eq hStores hPoints⟩

/-- Groups of points that were stored are read back as groups, with the points of each of them in
their order. -/
theorem pointGroups_of_hasPart {groups : List (List (Point Int))}
    (hRoom : ∀ point ∈ groups.flatten, w.HasRoom point) (hGroups : groups.length < 2 ^ 32)
    (hCount : groups.flatten.length < 2 ^ 32)
    (hPart : p.HasPart boundsSize (ofFields (w.groupsFields groups))) :
    pointGroups w.layout p = .ok (groups.map (List.map Point.ofInts)) := by
  have hStores : ∀ point ∈ groups.flatten, w.layout.Stores w.pointFields Point.ofInts point :=
    fun point hMem => w.stores_point (hRoom point hMem)
  have hCounts : ∀ group ∈ groups,
      Layout.dword.Stores (fun group : List (Point Int) => [⟨4, group.length⟩]) List.length group :=
    fun group _ => stores_length group
  have hFits : ∀ f ∈ w.groupsFields groups, f.Fits := w.fits_groups hGroups hCount
  have hFields := hPart.holdsFields hFits
  have hEnd := hPart.end_le
  rw [Width.groupsFields, Bytes.holdsFields_append, Bytes.holdsFields_append] at hFields
  rw [Bytes.size_ofFields, Width.groupsFields, List.map_append, List.map_append, List.sum_append,
    List.sum_append, Layout.width_flatMap hCounts, Layout.width_flatMap hStores] at hEnd
  obtain ⟨⟨⟨hNumber, hTotal, -⟩, hLengths⟩, hPoints⟩ := hFields
  rw [List.map_append, List.sum_append, Layout.width_flatMap hCounts] at hPoints
  have hShapes : p.u32At 16 = groups.length := hNumber
  have hAll : p.u32At 20 = groups.flatten.length := hTotal
  have hList : Layout.dword.list p 24 groups.length = groups.map List.length :=
    Layout.list_eq hCounts hLengths
  have hSize : 16 + (8 + 4 * groups.length + w.layout.size * groups.flatten.length) ≤ p.size := hEnd
  have hRead : w.layout.lists p (16 + (8 + 4 * groups.length)) (groups.map List.length) = _ :=
    Layout.lists_eq hStores hPoints
  rw [← Nat.add_assoc] at hRead
  rw [pointGroups_eq_ok_iff, hShapes, hAll, hList]
  exact ⟨⟨by omega, List.length_flatten.symm⟩, hRead⟩

end

variable {limit : Nat} {w : Width} {r : Record}

namespace Poly

variable {poly : Poly}

/-- A record of one shape asks for what the shape makes of its points, in whatever width they are
stored. -/
theorem actions_kind (poly : Poly) (w : Width) (p : Bytes) :
    Emf.actions limit (poly.kind w) p = (points w.layout p).map poly.actions := by
  cases poly <;> cases w <;> rfl

/-- A record that holds points with room in its width is carried out, and what it asks for does
not depend on the width. -/
theorem Holds.reading_of_room {points : List (Point Int)} (hHolds : poly.Holds w points r)
    (hRoom : ∀ point ∈ points, w.HasRoom point) (hCount : points.length < 2 ^ 32) :
    (dialect limit).reading r = ⟨poly.actions (points.map Point.ofInts), .done⟩ :=
  Dialect.reading_of_ok hHolds.kind (actions_kind ..)
    (points_of_hasPart hRoom hCount hHolds.payload)

/-- Points with room in 16 bits have room in both widths. This is the common ground on which the
two kinds of records are compared. -/
theorem Holds.reading_eq {points : List (Point Int)} (hHolds : poly.Holds w points r)
    (hShort : ∀ point ∈ points, IsShort point) (hCount : points.length < 2 ^ 32) :
    (dialect limit).reading r = ⟨poly.actions (points.map Point.ofInts), .done⟩ :=
  hHolds.reading_of_room (fun point hMem => w.hasRoom_of_isShort (hShort point hMem)) hCount

/-- A record of one figure fails just if its payload is too short for its points. -/
theorem failed_iff_size_lt (hKind : Kind.ofCode? r.opcode = some (poly.kind w)) :
    (∃ fault, ((dialect limit).reading r).outcome = .failed fault) ↔
      r.payload.size < 20 + 2 * w.bytes * r.payload.u32At 16 := by
  rw [Dialect.failed_iff hKind (actions_kind ..), ne_ok_iff fun _ => points_eq_ok_iff,
    w.size_layout, Nat.not_le]

end Poly

namespace PolyPoly

variable {poly : PolyPoly}

/-- A record of several shapes likewise asks for what is made of its groups of points. -/
theorem actions_kind (poly : PolyPoly) (w : Width) (p : Bytes) :
    Emf.actions limit (poly.kind w) p = (pointGroups w.layout p).map poly.actions := by
  cases poly <;> cases w <;> rfl

/-- If its points have room in the width and its counts in 32 bits, it is carried out. -/
theorem Holds.reading_of_room {groups : List (List (Point Int))} (hHolds : poly.Holds w groups r)
    (hRoom : ∀ point ∈ groups.flatten, w.HasRoom point) (hGroups : groups.length < 2 ^ 32)
    (hCount : groups.flatten.length < 2 ^ 32) :
    (dialect limit).reading r = ⟨poly.actions (groups.map (List.map Point.ofInts)), .done⟩ :=
  Dialect.reading_of_ok hHolds.kind (actions_kind ..)
    (pointGroups_of_hasPart hRoom hGroups hCount hHolds.payload)

/-- Groups of points with room in 16 bits ask for the same in both widths. -/
theorem Holds.reading_eq {groups : List (List (Point Int))} (hHolds : poly.Holds w groups r)
    (hShort : ∀ point ∈ groups.flatten, IsShort point) (hGroups : groups.length < 2 ^ 32)
    (hCount : groups.flatten.length < 2 ^ 32) :
    (dialect limit).reading r = ⟨poly.actions (groups.map (List.map Point.ofInts)), .done⟩ :=
  hHolds.reading_of_room (fun point hMem => w.hasRoom_of_isShort (hShort point hMem)) hGroups
    hCount

/-- A record of several figures fails just if its payload is too short for the lengths and the
points, or if the lengths do not make up the number of points. -/
theorem failed_iff_size_lt (hKind : Kind.ofCode? r.opcode = some (poly.kind w)) :
    (∃ fault, ((dialect limit).reading r).outcome = .failed fault) ↔
      r.payload.size < 24 + 4 * r.payload.u32At 16 + 2 * w.bytes * r.payload.u32At 20 ∨
        Layout.total (Layout.dword.list r.payload 24 (r.payload.u32At 16)) ≠
          r.payload.u32At 20 := by
  rw [Dialect.failed_iff hKind (actions_kind ..), ne_ok_iff fun _ => pointGroups_eq_ok_iff,
    w.size_layout, not_and_or, Nat.not_le]

end PolyPoly

/-- Two records that ask for the same draw alike: the calls they make and the session they leave
are equal in every session. -/
theorem drawAlike_of_reading {asked : List Action} {r' : Record}
    (hReading : (dialect limit).reading r = ⟨asked, .done⟩)
    (hReading' : (dialect limit).reading r' = ⟨asked, .done⟩) : DrawAlike limit asked r r' where
  reading := hReading
  reading' := hReading'
  drawn s := by simp [Dialect.drawn, Plotter.drawn, actionsOf, hReading, hReading']
  after s := by simp [Dialect.after, Plotter.after, actionsOf, hReading, hReading']

/-- Records that hold the same points in 16-bit and in 32-bit coordinates succeed, ask for what
these points ask for, draw the same and leave the same session behind, and so do records of
several figures. In both forms a record fails just if its payload is shorter than what it
declares, or if it declares lengths that do not make up its number of points. -/
theorem polyRecords_agree (limit : Nat) :
    (∀ (poly : Poly) (points : List (Point Int)) (short long : Record),
      (∀ point ∈ points, IsShort point) → points.length < 2 ^ 32 →
      poly.Holds .short points short → poly.Holds .long points long →
      DrawAlike limit (poly.actions (points.map Point.ofInts)) short long) ∧
    (∀ (poly : PolyPoly) (groups : List (List (Point Int))) (short long : Record),
      (∀ point ∈ groups.flatten, IsShort point) → groups.length < 2 ^ 32 →
      groups.flatten.length < 2 ^ 32 →
      poly.Holds .short groups short → poly.Holds .long groups long →
      DrawAlike limit (poly.actions (groups.map (List.map Point.ofInts))) short long) ∧
    (∀ (poly : Poly) (w : Width) (r : Record), Kind.ofCode? r.opcode = some (poly.kind w) →
      ((∃ fault, ((dialect limit).reading r).outcome = .failed fault) ↔
        r.payload.size < 20 + 2 * w.bytes * r.payload.u32At 16)) ∧
    ∀ (poly : PolyPoly) (w : Width) (r : Record), Kind.ofCode? r.opcode = some (poly.kind w) →
      ((∃ fault, ((dialect limit).reading r).outcome = .failed fault) ↔
        r.payload.size < 24 + 4 * r.payload.u32At 16 + 2 * w.bytes * r.payload.u32At 20 ∨
          Layout.total (Layout.dword.list r.payload 24 (r.payload.u32At 16)) ≠
            r.payload.u32At 20) := by
  refine ⟨?_, ?_, ?_, ?_⟩
  · intro poly points short long hShort hCount hFirst hSecond
    apply drawAlike_of_reading
    · exact hFirst.reading_eq hShort hCount
    · exact hSecond.reading_eq hShort hCount
  · intro poly groups short long hShort hGroups hCount hFirst hSecond
    apply drawAlike_of_reading
    · exact hFirst.reading_eq hShort hGroups hCount
    · exact hSecond.reading_eq hShort hGroups hCount
  · intro poly w r hKind
    exact Poly.failed_iff_size_lt hKind
  · intro poly w r hKind
    exact PolyPoly.failed_iff_size_lt hKind

/-- Curves, and polygons of which one has no points, with the least and the greatest coordinates
that have room in 16 bits. Without its last byte the record of the polygons fails. -/
theorem polyRecords_agree_extremePoints :
    let points : List (Point Int) := [⟨-1, 2⟩, ⟨300, -400⟩, ⟨32767, -32768⟩]
    let groups : List (List (Point Int)) := [points, [], [⟨7, 7⟩]]
    let bounds : Bytes := Array.replicate 16 0
    let curves (w : Width) : Record :=
      ⟨(Poly.polyBezierTo.kind w).code, 0, 0, 108, bounds ++ ofFields (w.pointsFields points)⟩
    let polygons (w : Width) : Record :=
      ⟨(PolyPoly.polyPolygon.kind w).code, 0, 0, 108, bounds ++ ofFields (w.groupsFields groups)⟩
    let cut (w : Width) : Record := { polygons w with payload := (polygons w).payload.pop }
    let d := dialect 1
    (d.reading (curves .short)).outcome = .done ∧ (d.reading (curves .long)).outcome = .done ∧
      (∀ s, d.drawn s [curves .short] = d.drawn s [curves .long]) ∧
      (d.reading (polygons .short)).outcome = .done ∧
      (d.reading (polygons .long)).outcome = .done ∧
      (∀ s, d.after s [polygons .short] = d.after s [polygons .long]) ∧
      ∀ w, ∃ fault, (d.reading (cut w)).outcome = .failed fault := by
  intro points groups bounds curves polygons cut d
  obtain ⟨hPoly, hPolyPoly, -, hFails⟩ := polyRecords_agree 1
  have hCurves : ∀ w, Poly.polyBezierTo.Holds w points (curves w) := by
    intro w
    refine ⟨?_, bounds, #[], (Array.append_empty ..).symm, rfl⟩
    cases w <;> rfl
  have hPolygons : ∀ w, PolyPoly.polyPolygon.Holds w groups (polygons w) := by
    intro w
    refine ⟨?_, bounds, #[], (Array.append_empty ..).symm, rfl⟩
    cases w <;> rfl
  have hCurve := hPoly .polyBezierTo points (curves .short) (curves .long)
    (by decide) (by decide) (hCurves .short) (hCurves .long)
  have hPolygon := hPolyPoly .polyPolygon groups (polygons .short) (polygons .long)
    (by decide) (by decide) (by decide) (hPolygons .short) (hPolygons .long)
  refine ⟨?_, ?_, hCurve.drawn, ?_, ?_, hPolygon.after, fun w => ?_⟩
  · rw [hCurve.reading]
  · rw [hCurve.reading']
  · rw [hPolygon.reading]
  · rw [hPolygon.reading']
  · refine (hFails .polyPolygon w (cut w) (hPolygons w).kind).2 (.inl ?_)
    cases w <;> decide +kernel

end Metafile.Emf
