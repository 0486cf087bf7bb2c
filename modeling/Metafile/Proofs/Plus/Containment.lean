import Mathlib.Data.List.Pairwise
import Metafile.Plus.File
import Metafile.Proofs.Bytes.Part
import Metafile.Proofs.Emf.Tiling

/-! EMF+ records lie inside the comments that carry them, apart from each other,
and the file holds at their offsets what they say, whatever the three length
fields of comments and records claim. -/

namespace Metafile.Plus

/-- A record that is in a file just as its own fields say. -/
structure StandsIn (data : Bytes) (r : Record) : Prop where
  opcode_eq : r.opcode = data.u16At r.offset
  flags_eq : r.flags = data.u16At (r.offset + 2)
  size_eq : r.declaredSize = data.u32At (r.offset + 4)
  size_ge : 12 ≤ r.declaredSize
  length_eq : r.payload.size = data.u32At (r.offset + 8)
  end_le : r.offset + 12 + r.payload.size ≤ data.size
  payload_eq : r.payload =
    data.extract (r.offset + 12) (r.offset + 12 + data.u32At (r.offset + 8))

/-- A comment that is marked as one with EMF+ records. -/
structure CarriesPlus (comment : Record) : Prop where
  opcode_eq : comment.opcode = 70
  size_ge : 8 ≤ comment.payload.size
  identifier_eq : comment.payload.u32At 4 = 0x2B464D45

/-- A record behind the identifier of a comment that ends before the comment does,
and also before the bytes end that the comment counts as its own. -/
structure Inside (comment r : Record) : Prop where
  start_le : comment.offset + 16 ≤ r.offset
  end_le : r.offset + 12 + r.payload.size ≤
    min (comment.offset + comment.declaredSize) (comment.offset + 12 + comment.payload.u32At 0)

instance (comment r : Record) : Decidable (Inside comment r) :=
  decidable_of_iff (comment.offset + 16 ≤ r.offset ∧
      r.offset + 12 + r.payload.size ≤
        min (comment.offset + comment.declaredSize)
          (comment.offset + 12 + comment.payload.u32At 0))
    ⟨fun h => ⟨h.1, h.2⟩, fun h => ⟨h.1, h.2⟩⟩

/-- Reading cannot go on in a comment: too few bytes are left, also for the data. -/
def NoRecordAt (body : Bytes) (position : Nat) : Prop :=
  body.size < position + 12 ∨ body.size < position + 12 + body.u32At (position + 8)

/-- All that one step can do in a comment. A record found stands in the bytes of the
comment, where its offset is counted from their start, and reading goes on
behind its data and its padding. -/
theorem recordAt_meets (body : Bytes) (base position : Nat) :
    (recordAt body base position).Meets
      (fun r next => r.offset = base + position ∧ StandsIn body { r with offset := position } ∧
        next = position + max r.declaredSize (12 + r.payload.size))
      (fun fault => body.u32At (position + 4) < 12 ∧
        fault = .sizeBelowHeader (body.u32At (position + 4)))
      (NoRecordAt body position) := by
  simp only [recordAt]
  split
  case isTrue hRoom => exact .inl hRoom
  case isFalse hRoom =>
    split
    case isTrue hPast => exact .inr hPast
    case isFalse hPast =>
      split
      case isTrue hShort => exact ⟨hShort, rfl⟩
      case isFalse hShort =>
        have hHeader : recordHeaderSize = 12 := rfl
        have hLength : (body.slice (position + recordHeaderSize)
            (body.u32At (position + 8))).size = body.u32At (position + 8) := by
          rw [Bytes.slice, Array.size_extract]
          omega
        refine ⟨rfl, ⟨rfl, rfl, rfl, Nat.not_lt.1 hShort, hLength, ?_, ?_⟩, ?_⟩
        · dsimp only
          omega
        · exact body.slice_eq_extract (by dsimp only; omega)
        · dsimp only
          rw [hLength, hHeader]

/-- A record that stands in the bytes of a comment is found where it starts. -/
theorem StandsIn.recordAt_eq {body : Bytes} {base position : Nat} {r : Record}
    (hStands : StandsIn body { r with offset := position }) (hOffset : r.offset = base + position) :
    ∃ hAdvances, recordAt body base position =
      .found r (position + max r.declaredSize (12 + r.payload.size)) hAdvances := by
  obtain ⟨hOpcode, hFlags, hSize, hGe, hLength, hEnd, hPayload⟩ := hStands
  dsimp only at hOpcode hFlags hSize hGe hLength hEnd hPayload
  have hNotShort : ∀ fault : Fault, ¬(body.u32At (position + 4) < 12 ∧
      fault = .sizeBelowHeader (body.u32At (position + 4))) := by
    rintro fault ⟨hShort, -⟩
    omega
  have hSome : ¬NoRecordAt body position := by
    unfold NoRecordAt
    omega
  obtain ⟨r', next, hAdvances, hStep, hOffset', ⟨hOpcode', hFlags', hSize', -, -, -, hPayload'⟩,
    rfl⟩ := (recordAt_meets body base position).exists_found hNotShort hSome
  have hSame : r' = r := by
    obtain ⟨opcode, size, flags, offset, payload⟩ := r
    obtain ⟨opcode', size', flags', offset', payload'⟩ := r'
    simp_all
  subst hSame
  exact ⟨hAdvances, hStep⟩

/-- What stands in a part of a file stands in the file, as much further on as the
part does. -/
theorem StandsIn.of_hasPart {data body : Bytes} {base position : Nat} {r : Record}
    (hPart : data.HasPart base body) (hStands : StandsIn body { r with offset := position })
    (hOffset : r.offset = base + position) : StandsIn data r := by
  obtain ⟨hOpcode, hFlags, hSize, hGe, hLength, hEnd, hPayload⟩ := hStands
  dsimp only at hOpcode hFlags hSize hGe hLength hEnd hPayload
  have hField : ∀ offset width, offset + width ≤ 12 →
      data.field (r.offset + offset) width = body.field (position + offset) width := by
    intro offset width hFits
    rw [hOffset, Nat.add_assoc, hPart.field_eq (by omega)]
  refine ⟨?_, ?_, ?_, hGe, ?_, ?_, ?_⟩
  · exact hOpcode.trans (hField 0 2 (by omega)).symm
  · exact hFlags.trans (hField 2 2 (by omega)).symm
  · exact hSize.trans (hField 4 4 (by omega)).symm
  · exact hLength.trans (hField 8 4 (by omega)).symm
  · have hWhole := hPart.end_le
    omega
  · have hStretch := hPart.extract_eq (position + 12) hEnd
    have hDataLength : data.u32At (r.offset + 8) = body.u32At (position + 8) :=
      hField 8 4 (by omega)
    rw [hDataLength, ← hLength, hOffset]
    rw [← hLength] at hPayload
    refine hPayload.trans (hStretch.symm.trans ?_)
    simp only [Nat.add_assoc]

/-- The way along the bytes of a comment: its records stand there, and each lies
behind the data of those before it. -/
theorem spread_of_path {body : Bytes} {base start stop : Nat} {visits : List Visit}
    (hPath : Path body.size (recordAt body base) resync start visits stop) :
    (∀ r ∈ Visit.records visits, ∃ position, start ≤ position ∧ r.offset = base + position ∧
        StandsIn body { r with offset := position }) ∧
      (Visit.records visits).Pairwise fun a b => a.offset + 12 + a.payload.size ≤ b.offset := by
  induction hPath with
  | here position => exact ⟨by simp, .nil⟩
  | @found position next stop r hAdvances visits hBefore hStep later ih =>
      obtain ⟨hOffset, hStands, hNext⟩ := (recordAt_meets body base position).of_found hStep
      obtain ⟨hBehind, hApart⟩ := ih
      refine ⟨?_, List.pairwise_cons.2 ⟨?_, hApart⟩⟩
      · intro r' hMem
        rcases List.mem_cons.1 hMem with rfl | hMem
        · exact ⟨position, Nat.le_refl _, hOffset, hStands⟩
        · obtain ⟨position', hStart, hOffset', hStands'⟩ := hBehind r' hMem
          exact ⟨position', by omega, hOffset', hStands'⟩
      · intro r' hMem
        obtain ⟨position', hStart, hOffset', -⟩ := hBehind r' hMem
        omega
  | @skipped position stop fault visits hBefore hStep later ih =>
      obtain ⟨hBehind, hApart⟩ := ih
      refine ⟨?_, hApart⟩
      intro r hMem
      obtain ⟨position', hStart, hOffset, hStands⟩ := hBehind r hMem
      exact ⟨position', by omega, hOffset, hStands⟩

/-- A comment that is unwrapped carries EMF+ records, and its body is cut out of its payload. -/
theorem Body.ofRecord?_eq_some {comment : Record} {body : Body}
    (hBody : Body.ofRecord? comment = some body) :
    CarriesPlus comment ∧ body = ⟨comment.offset + 16, comment.payload.extract 8
      (max 8 (min (comment.payload.u32At 0 + 4) comment.payload.size))⟩ := by
  simp only [Body.ofRecord?] at hBody
  split at hBody
  case isTrue => cases hBody
  case isFalse hComment =>
    split at hBody
    case isTrue => cases hBody
    case isFalse hMarked =>
      cases hBody
      obtain ⟨hRoom, hIdentifier⟩ := not_or.1 hMarked
      exact ⟨⟨Decidable.of_not_not hComment, Nat.not_lt.1 hRoom,
        Decidable.of_not_not hIdentifier⟩, rfl⟩

/-- The bytes that are read as records: they are in the file where the body says, and
a body that is not empty ends inside its comment. -/
theorem Body.of_ofRecord? {data : Bytes} {comment : Record} {body : Body}
    (hStands : Emf.StandsIn data comment) (hBody : Body.ofRecord? comment = some body) :
    CarriesPlus comment ∧ body.base = comment.offset + 16 ∧
      data.HasPart body.base body.bytes ∧
      (0 < body.bytes.size → body.base + body.bytes.size ≤
        min (comment.offset + comment.declaredSize)
          (comment.offset + 12 + comment.payload.u32At 0)) := by
  obtain ⟨hCarries, rfl⟩ := Body.ofRecord?_eq_some hBody
  have hRoom := hCarries.size_ge
  have hPayload : data.HasPart (comment.offset + 8) comment.payload := by
    rw [hStands.payload_eq]
    exact Bytes.hasPart_extract (by have := hStands.size_ge; omega) hStands.end_le
  have hSize : comment.payload.size = comment.declaredSize - 8 := by
    have hEnd := hStands.end_le
    rw [hStands.payload_eq, Array.size_extract]
    omega
  have hGe := hStands.size_ge
  refine ⟨hCarries, rfl, ?_, ?_⟩
  · exact hPayload.trans (Bytes.hasPart_extract (by omega) (by omega))
  · dsimp only
    intro hSome
    rw [Array.size_extract] at hSome ⊢
    omega

/-- The EMF+ records that are read from one EMF record. -/
def contribution (limit : Nat) (comment : Record) : List Record :=
  match Body.ofRecord? comment with
  | none => []
  | some body => Visit.records (body.visits limit)

/-- What one comment contributes is limited on its own, lies inside the comment and does not
overlap. -/
theorem contribution_spread {data : Bytes} {comment : Record}
    (hStands : Emf.StandsIn data comment) (limit : Nat) :
    (contribution limit comment).length ≤ limit ∧
      (∀ r ∈ contribution limit comment,
        CarriesPlus comment ∧ Inside comment r ∧ StandsIn data r) ∧
      (contribution limit comment).Pairwise fun a b =>
        a.offset + 12 + a.payload.size ≤ b.offset := by
  unfold contribution
  cases hBody : Body.ofRecord? comment with
  | none => exact ⟨Nat.zero_le _, by simp, .nil⟩
  | some body =>
      obtain ⟨hCarries, hBase, hPart, hEnd⟩ := Body.of_ofRecord? hStands hBody
      obtain ⟨stop, hPath, hLength, -⟩ := exists_path_walk body.bytes.size
        (recordAt body.bytes body.base) resync 0 limit
      obtain ⟨hRecords, hApart⟩ := spread_of_path hPath
      refine ⟨hLength, ?_, hApart⟩
      intro r hMem
      obtain ⟨position, -, hOffset, hInBody⟩ := hRecords r hMem
      have hFits := hInBody.end_le
      dsimp only at hFits
      have hWithin := hEnd (by omega)
      exact ⟨hCarries, ⟨by omega, by omega⟩, hInBody.of_hasPart hPart hOffset⟩

/-- The records of a file are those that its EMF records contribute, in their order. -/
theorem File.result_of_header {data : Bytes} {limit : Nat} {header : Emf.Header}
    (hHeader : Emf.Header.decode data = .ok header) :
    (File.decode limit data).result =
      .ok ⟨header, (Visit.records (header.visits data)).flatMap (contribution limit)⟩ := by
  have hBodies : ∀ rs : List Record,
      ((rs.filterMap Body.ofRecord?).flatMap fun body => Visit.records (body.visits limit)) =
        rs.flatMap (contribution limit) := by
    intro rs
    induction rs with
    | nil => rfl
    | cons r rs ih =>
        rw [List.flatMap_cons, ← ih, List.filterMap_cons, contribution]
        cases Body.ofRecord? r <;> rfl
  rw [File.decode, hHeader, ← hBodies]
  rfl

theorem File.header_of_ok {data : Bytes} {limit : Nat} {file : File}
    (hDecode : (File.decode limit data).result = .ok file) :
    Emf.Header.decode data = .ok file.header := by
  cases hHeader : Emf.Header.decode data with
  | error error =>
      rw [File.decode, hHeader] at hDecode
      cases hDecode
  | ok header =>
      rw [File.result_of_header hHeader] at hDecode
      cases hDecode
      rfl

/-- Two EMF records that share a byte are the same, since records of a file do not overlap. -/
theorem eq_of_shared {rs : List Record}
    (hApart : rs.Pairwise fun a b => a.offset + a.declaredSize ≤ b.offset) {a b : Record}
    (ha : a ∈ rs) (hb : b ∈ rs) (position : Nat)
    (hInA : a.offset ≤ position ∧ position < a.offset + a.declaredSize)
    (hInB : b.offset ≤ position ∧ position < b.offset + b.declaredSize) : a = b := by
  by_contra hNe
  have : Std.Symm fun a b : Record =>
      a.offset + a.declaredSize ≤ b.offset ∨ b.offset + b.declaredSize ≤ a.offset :=
    ⟨fun _ _ => Or.symm⟩
  have hEither : rs.Pairwise fun a b =>
      a.offset + a.declaredSize ≤ b.offset ∨ b.offset + b.declaredSize ≤ a.offset :=
    hApart.imp .inl
  have hDisjoint := hEither.forall ha hb hNe
  omega

/-- The records of EMF records that a comment is apart from are not inside it. -/
theorem countP_inside_eq_zero {data : Bytes} {others : List Record} {comment : Record}
    (hOthers : ∀ other ∈ others, Emf.StandsIn data other ∧
      (other.offset + other.declaredSize ≤ comment.offset ∨
        comment.offset + comment.declaredSize ≤ other.offset)) (limit : Nat) :
    (others.flatMap (contribution limit)).countP (fun r => Inside comment r) = 0 := by
  refine List.countP_eq_zero.2 ?_
  intro r hr
  obtain ⟨other, hOther, hr⟩ := List.mem_flatMap.1 hr
  obtain ⟨hStands, hElsewhere⟩ := hOthers other hOther
  obtain ⟨-, hInside, -⟩ := (contribution_spread hStands limit).2.1 r hr
  rw [decide_eq_true_eq]
  intro hHere
  have hStart := hInside.start_le
  have hEnd := hInside.end_le
  have hStart' := hHere.start_le
  have hEnd' := hHere.end_le
  omega

/-- No comment adds more records to the file than the limit allows: the records
inside it all come from its own bytes. -/
theorem countP_inside_le {data : Bytes} {rs : List Record} {limit : Nat} {comment : Record}
    (hStand : ∀ r ∈ rs, Emf.StandsIn data r)
    (hApart : rs.Pairwise fun a b => a.offset + a.declaredSize ≤ b.offset)
    (hMem : comment ∈ rs) :
    (rs.flatMap (contribution limit)).countP (fun r => Inside comment r) ≤ limit := by
  obtain ⟨front, back, rfl⟩ := List.append_of_mem hMem
  rw [List.pairwise_append, List.pairwise_cons] at hApart
  obtain ⟨-, ⟨hBack, -⟩, hFront⟩ := hApart
  have hFrontNone : (front.flatMap (contribution limit)).countP (fun r => Inside comment r) = 0 :=
    countP_inside_eq_zero (fun other hOther =>
      ⟨hStand other (by simp [hOther]), .inl (hFront other hOther comment (by simp))⟩) limit
  have hBackNone : (back.flatMap (contribution limit)).countP (fun r => Inside comment r) = 0 :=
    countP_inside_eq_zero (fun other hOther =>
      ⟨hStand other (by simp [hOther]), .inr (hBack other hOther)⟩) limit
  rw [List.flatMap_append, List.flatMap_cons, List.countP_append, List.countP_append, hFrontNone,
    hBackNone, Nat.zero_add, Nat.add_zero]
  exact Nat.le_trans List.countP_le_length (contribution_spread (hStand comment hMem) limit).1

/-- Every EMF+ record of a file stands in it and lies inside a comment that carries
EMF+ records, and inside no other EMF record. The records follow one another
without sharing a byte, and no comment holds more of them than the limit. -/
theorem decode_contained (data : Bytes) (limit : Nat) (file : File)
    (hDecode : (File.decode limit data).result = .ok file) :
    ∃ outer, (Emf.File.decode data).result = .ok outer ∧
      (∀ r ∈ file.records, StandsIn data r ∧
        ∃ comment ∈ Visit.records outer.visits, CarriesPlus comment ∧ Inside comment r ∧
          ∀ other ∈ Visit.records outer.visits, other.offset ≤ r.offset →
            r.offset + 12 + r.payload.size ≤ other.offset + other.declaredSize →
            other = comment) ∧
      (file.records.Pairwise fun a b =>
        a.offset < b.offset ∧ a.offset + 12 + a.payload.size ≤ b.offset) ∧
      ∀ comment ∈ Visit.records outer.visits,
        file.records.countP (fun r => Inside comment r) ≤ limit := by
  have hHeader := File.header_of_ok hDecode
  have hRecords : file.records =
      (Visit.records (file.header.visits data)).flatMap (contribution limit) := by
    have hResult := (File.result_of_header hHeader).symm.trans hDecode
    exact (congrArg File.records (Except.ok.inj hResult)).symm
  obtain ⟨blocks, stop, hTiling, -, -, -⟩ := file.header.exists_tiling data
  obtain ⟨hBehind, hApart⟩ := hTiling.spread
  have hStand : ∀ r ∈ Visit.records (file.header.visits data), Emf.StandsIn data r :=
    fun r hMem => (hBehind r hMem).1
  refine ⟨⟨file.header, file.header.visits data⟩, Emf.File.result_of_header hHeader, ?_, ?_, ?_⟩
  · intro r hMem
    rw [hRecords] at hMem
    obtain ⟨comment, hComment, hr⟩ := List.mem_flatMap.1 hMem
    obtain ⟨hCarries, hInside, hStands⟩ :=
      (contribution_spread (hStand comment hComment) limit).2.1 r hr
    refine ⟨hStands, comment, hComment, hCarries, hInside, ?_⟩
    intro other hOther hStart hEnd
    have hIn := hInside.start_le
    have hOut := hInside.end_le
    exact eq_of_shared hApart hOther hComment r.offset (by omega) (by omega)
  · rw [hRecords]
    refine List.Pairwise.imp (R := fun a b => a.offset + 12 + a.payload.size ≤ b.offset)
      (fun hApart => ⟨by omega, hApart⟩) (List.pairwise_flatMap.2 ⟨?_, ?_⟩)
    · exact fun comment hMem => (contribution_spread (hStand comment hMem) limit).2.2
    · refine hApart.imp_of_mem ?_
      intro first second hFirst hSecond hBehind a ha b hb
      obtain ⟨-, hInFirst, -⟩ := (contribution_spread (hStand first hFirst) limit).2.1 a ha
      obtain ⟨-, hInSecond, -⟩ := (contribution_spread (hStand second hSecond) limit).2.1 b hb
      have hEnd := hInFirst.end_le
      have hStart := hInSecond.start_le
      omega
  · intro comment hMem
    rw [hRecords]
    exact countP_inside_le hStand hApart hMem

/-- A file with two comments. The first counts nearly all of memory as its own. It
holds a record that is shorter than its data says, one that is skipped, and an
empty one. The second counts too little to hold a record. -/
def greedyFile : Bytes :=
  #[1, 0, 0, 0, 88, 0, 0, 0] ++ Array.replicate 32 0 ++ #[0x20, 0x45, 0x4D, 0x46] ++
    Array.replicate 8 0 ++ #[2, 0, 0, 0] ++ Array.replicate 32 0 ++
    #[70, 0, 0, 0, 56, 0, 0, 0, 0xFF, 0xFF, 0xFF, 0xFF, 0x45, 0x4D, 0x46, 0x2B,
      1, 0x40, 1, 0, 12, 0, 0, 0, 4, 0, 0, 0, 1, 2, 3, 4,
      9, 0x40, 0, 0, 5, 0, 0, 0, 0, 0, 0, 0, 2, 0x40, 0, 0, 12, 0, 0, 0, 0, 0, 0, 0] ++
    #[70, 0, 0, 0, 28, 0, 0, 0, 3, 0, 0, 0, 0x45, 0x4D, 0x46, 0x2B,
      2, 0x40, 0, 0, 12, 0, 0, 0, 0, 0, 0, 0]

theorem decode_contained_greedyFile :
    ∃ outer, (Emf.File.decode greedyFile).result = .ok outer ∧
      ∀ r ∈ [(⟨0x4001, 12, 1, 104, #[1, 2, 3, 4]⟩ : Record), ⟨0x4002, 12, 0, 132, #[]⟩],
        StandsIn greedyFile r ∧
          ∃ comment ∈ Visit.records outer.visits, CarriesPlus comment ∧ Inside comment r := by
  have hDecode : (File.decode 2 greedyFile).result =
      .ok ⟨Emf.Header.read greedyFile,
        [⟨0x4001, 12, 1, 104, #[1, 2, 3, 4]⟩, ⟨0x4002, 12, 0, 132, #[]⟩]⟩ := by
    decide +kernel
  obtain ⟨outer, hOuter, hRecords, -, -⟩ := decode_contained _ _ _ hDecode
  refine ⟨outer, hOuter, fun r hMem => ?_⟩
  obtain ⟨hStands, comment, hComment, hCarries, hInside, -⟩ := hRecords r hMem
  exact ⟨hStands, comment, hComment, hCarries, hInside⟩

end Metafile.Plus
