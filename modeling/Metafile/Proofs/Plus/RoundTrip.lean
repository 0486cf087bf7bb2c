import Metafile.Format.Detect
import Metafile.Proofs.Emf.Layout
import Metafile.Proofs.Plus.Containment

/-! Laying out EMF files with EMF+ records in their comments. Reading such a file
gives back both kinds of records, and the format is told by the first item. -/

namespace Metafile.Plus

/-- An EMF+ record to be laid out. Its size counts the padding behind its data. -/
structure Entry where
  type : Nat
  flags : Nat
  data : Bytes
  padding : Bytes
  type_lt : type < 2 ^ 16
  flags_lt : flags < 2 ^ 16
  size_lt : 12 + data.size + padding.size < 2 ^ 32

namespace Entry

def size (entry : Entry) : Nat := 12 + entry.data.size + entry.padding.size

/-- Records in bytes that start at `base` in the file. -/
def encoding (base : Nat) : Encoding Entry where
  bytes entry :=
    .ofNat 2 entry.type ++ .ofNat 2 entry.flags ++ .ofNat 4 entry.size ++
      .ofNat 4 entry.data.size ++ entry.data ++ entry.padding
  record start entry := ⟨entry.type, entry.size, entry.flags, base + start, entry.data⟩

variable {base start : Nat} {body : Bytes} {entry : Entry}

/-- An entry is as long as its declared size, padding included. -/
@[simp]
theorem size_bytes (base : Nat) (entry : Entry) :
    ((encoding base).bytes entry).size = entry.size := by
  simp only [encoding, Array.size_append, Bytes.size_ofNat, size]

/-- Where an entry is laid out in a comment, the comment holds its record. -/
theorem standsIn (hPart : body.HasPart start ((encoding base).bytes entry)) :
    StandsIn body { (encoding base).record start entry with offset := start } := by
  have hSizeLt := entry.size_lt
  have hFlags : body.HasPart (start + 2) (.ofNat 2 entry.flags) := by
    simpa using hPart.left.left.left.left.right
  have hSize : body.HasPart (start + 4) (.ofNat 4 entry.size) := by
    simpa using hPart.left.left.left.right
  have hLength : body.HasPart (start + 8) (.ofNat 4 entry.data.size) := by
    simpa using hPart.left.left.right
  have hData : body.HasPart (start + 12) entry.data := by
    simpa using hPart.left.right
  have hLengthEq : body.u32At (start + 8) = entry.data.size := hLength.u32At_eq (by omega)
  refine ⟨?_, ?_, ?_, ?_, ?_, hData.end_le, ?_⟩
  · exact (hPart.left.left.left.left.left.u16At_eq entry.type_lt).symm
  · exact (hFlags.u16At_eq entry.flags_lt).symm
  · exact (hSize.u32At_eq hSizeLt).symm
  · dsimp only [encoding, size]
    omega
  · exact hLengthEq.symm
  · dsimp only [encoding]
    rw [hLengthEq]
    simpa using (hData.extract_eq 0 (Nat.le_refl _)).symm

/-- What is written is found again at any place in the body of a comment, with positions that
count from the start of the file. -/
theorem readsBack (base : Nat) (body : Bytes) :
    (encoding base).ReadsBack body (recordAt body base) := by
  intro entry start hPart
  obtain ⟨hAdvances, hStep⟩ :=
    (standsIn hPart).recordAt_eq (r := (encoding base).record start entry) rfl
  have hNext : start + max ((encoding base).record start entry).declaredSize
      (12 + ((encoding base).record start entry).payload.size) =
        start + ((encoding base).bytes entry).size := by
    rw [size_bytes]
    dsimp only [encoding, size]
    omega
  simp only [hNext] at hStep
  exact ⟨by omega, hStep⟩

end Entry

/-- What an item of an EMF file holds: a record of a kind other than comments, a
comment with other bytes, or a comment with EMF+ records and padding behind
them. -/
inductive Content where
  | plain (type : Nat) (payload : Bytes)
  | comment (payload : Bytes)
  | plus (entries : List Entry) (padding : Bytes)

namespace Content

def type : Content → Nat
  | plain type _ => type
  | comment _ | plus _ _ => 70

/-- The bytes of the records, which do not depend on their place in the file. -/
def body (entries : List Entry) : Bytes := (Entry.encoding 0).stream entries

/-- The length at the front of a comment with EMF+ records counts the identifier and
the records, not the padding. -/
def payload : Content → Bytes
  | plain _ payload | comment payload => payload
  | plus entries padding =>
    .ofNat 4 (4 + (body entries).size) ++ .ofNat 4 0x2B464D45 ++ body entries ++ padding

/-- No content can be taken for one of another form. -/
def Proper : Content → Prop
  | plain type _ => type ≠ 70
  | comment payload => payload.size < 8 ∨ payload.u32At 4 ≠ 0x2B464D45
  | plus _ padding => padding.size < 4

instance : (content : Content) → Decidable content.Proper
  | plain type _ => inferInstanceAs (Decidable (type ≠ 70))
  | comment payload =>
    inferInstanceAs (Decidable (payload.size < 8 ∨ payload.u32At 4 ≠ 0x2B464D45))
  | plus _ padding => inferInstanceAs (Decidable (padding.size < 4))

def entries : Content → List Entry
  | plain _ _ | comment _ => []
  | plus entries _ => entries

/-- Whether a file that begins with the item is one of EMF+ records, where the item
alone decides it. -/
def announces? : Content → Option Bool
  | plain type _ => some (decide (0x4001 ≤ type ∧ type ≤ 0x4044))
  | comment payload => if 8 ≤ payload.size then some false else none
  | plus [] _ => none
  | plus (entry :: _) _ => some (decide (0x4001 ≤ entry.type ∧ entry.type ≤ 0x4044))

end Content

/-- An item of an EMF file with a size that can be stored. -/
structure Item where
  content : Content
  proper : content.Proper
  type_lt : content.type < 2 ^ 32
  aligned : content.payload.size % 4 = 0
  size_lt : 8 + content.payload.size < 2 ^ 32

def Item.entry (item : Item) : Emf.Entry :=
  ⟨item.content.type, item.content.payload, item.type_lt, item.aligned, item.size_lt⟩

/-- The EMF+ records of an item that starts at an offset in the file. -/
def Item.plusRecords (offset : Nat) (item : Item) : List Record :=
  (Entry.encoding (offset + 16)).records 0 item.content.entries

/-- The EMF+ records of items one behind the other. -/
def plusRecords : Nat → List Item → List Record
  | _, [] => []
  | offset, item :: items =>
    item.plusRecords offset ++ plusRecords (offset + (8 + item.content.payload.size)) items

/-- Whether a file is one of EMF+ records, where its first item alone decides it. -/
def announces? : List Item → Option Bool
  | [] => some false
  | item :: _ => item.content.announces?

/-- A file with nothing behind its items. -/
def file (p : Emf.Prologue) (items : List Item) : Bytes := p.file (items.map Item.entry)

theorem Entry.stream_encoding (base : Nat) (entries : List Entry) :
    (Entry.encoding base).stream entries = Content.body entries := by
  induction entries with
  | nil => rfl
  | cons entry entries ih =>
      rw [Encoding.stream, ih]
      rfl

/-- The three fields of a comment that is laid out with EMF+ records. -/
theorem Content.hasPart_plus (entries : List Entry) (padding : Bytes) :
    (plus entries padding).payload.HasPart 0 (.ofNat 4 (4 + (body entries).size)) ∧
      (plus entries padding).payload.HasPart 4 (.ofNat 4 0x2B464D45) ∧
      (plus entries padding).payload.HasPart 8 (body entries) := by
  have hWhole : (plus entries padding).payload.HasPart 0 (.ofNat 4 (4 + (body entries).size) ++
      .ofNat 4 0x2B464D45 ++ body entries ++ padding) := Bytes.hasPart_self _
  refine ⟨hWhole.left.left.left, ?_, ?_⟩
  · simpa using hWhole.left.left.right
  · simpa using hWhole.left.right

/-- The bytes of a comment that is laid out with EMF+ records are read as a body that
begins behind the identifier and ends before the padding. -/
theorem Body.ofRecord?_plus {entries : List Entry} {padding : Bytes} (offset : Nat)
    (hSize : 8 + (Content.plus entries padding).payload.size < 2 ^ 32) :
    Body.ofRecord? ⟨70, 8 + (Content.plus entries padding).payload.size, 0, offset,
        (Content.plus entries padding).payload⟩ =
      some ⟨offset + 16, Content.body entries⟩ := by
  generalize hPayload : (Content.plus entries padding).payload = payload at hSize
  obtain ⟨hLength, hIdentifier, hBody⟩ := Content.hasPart_plus entries padding
  rw [hPayload] at hLength hIdentifier hBody
  have hEnd := hBody.end_le
  have hLengthEq : payload.u32At 0 = 4 + (Content.body entries).size :=
    hLength.u32At_eq (by omega)
  have hIdentifierEq : payload.u32At 4 = identifier := hIdentifier.u32At_eq (by decide)
  have hStop : max 8 (min (4 + (Content.body entries).size + 4) payload.size) =
      8 + (Content.body entries).size := by omega
  have hBytes : payload.extract 8 (8 + (Content.body entries).size) = Content.body entries := by
    simpa using hBody.extract_eq 0 (Nat.le_refl _)
  have hMarked : ¬(payload.size < 8 ∨ payload.u32At 4 ≠ identifier) := by
    rw [not_or]
    exact ⟨by omega, not_not.2 hIdentifierEq⟩
  have hComment : ¬70 ≠ Emf.Kind.comment.code := by decide
  simp only [Body.ofRecord?, if_neg hComment, if_neg hMarked, hLengthEq, hStop, hBytes]

/-- Other records of the file around hold nothing of EMF+. They may be comments of another
kind. -/
theorem Body.ofRecord?_eq_none {comment : Record}
    (hForeign : comment.opcode ≠ 70 ∨ comment.payload.size < 8 ∨
      comment.payload.u32At 4 ≠ 0x2B464D45) : Body.ofRecord? comment = none := by
  simp only [Body.ofRecord?]
  split
  case isTrue => rfl
  case isFalse hComment =>
    split
    case isTrue => rfl
    case isFalse hMarked => exact absurd (hForeign.resolve_left hComment) hMarked

/-- Every content adds the EMF+ records that it was laid out with, and others add
none. -/
theorem contribution_content {content : Content} (hProper : content.Proper)
    (hSize : 8 + content.payload.size < 2 ^ 32) (offset : Nat) {limit : Nat}
    (hLimit : content.entries.length ≤ limit) :
    contribution limit ⟨content.type, 8 + content.payload.size, 0, offset, content.payload⟩ =
      (Entry.encoding (offset + 16)).records 0 content.entries := by
  cases content with
  | plain type payload =>
      have hNone : Body.ofRecord? ⟨type, 8 + payload.size, 0, offset, payload⟩ = none :=
        Body.ofRecord?_eq_none (.inl hProper)
      simp only [contribution, Content.type, Content.payload, hNone]
      rfl
  | comment payload =>
      have hNone : Body.ofRecord? ⟨70, 8 + payload.size, 0, offset, payload⟩ = none :=
        Body.ofRecord?_eq_none (.inr hProper)
      simp only [contribution, Content.type, Content.payload, hNone]
      rfl
  | plus entries padding =>
      have hEnd : 0 + ((Entry.encoding (offset + 16)).stream entries).size =
          (Content.body entries).size := by
        rw [Entry.stream_encoding, Nat.zero_add]
      have hPart : (Content.body entries).HasPart 0
          ((Entry.encoding (offset + 16)).stream entries) := by
        rw [Entry.stream_encoding]
        exact Bytes.hasPart_self _
      have hVisits : Body.visits ⟨offset + 16, Content.body entries⟩ limit =
          ((Entry.encoding (offset + 16)).records 0 entries).map .record :=
        (Entry.readsBack (offset + 16) _).walk_eq hPart hEnd hLimit
      rw [contribution, Content.type, Body.ofRecord?_plus offset hSize]
      simp only [hVisits, Visit.records_map_record]
      rfl

/-- The EMF+ records of the comments among the items are found comment by comment. -/
theorem flatMap_contribution {limit : Nat} {items : List Item}
    (hLimit : ∀ item ∈ items, item.content.entries.length ≤ limit) (offset : Nat) :
    (Emf.Entry.encoding.records offset (items.map Item.entry)).flatMap (contribution limit) =
      plusRecords offset items := by
  induction items generalizing offset with
  | nil => rfl
  | cons item items ih =>
      obtain ⟨hFirst, hRest⟩ := List.forall_mem_cons.1 hLimit
      have hItem : contribution limit (Emf.Entry.encoding.record offset item.entry) =
          item.plusRecords offset :=
        contribution_content item.proper item.size_lt offset hFirst
      rw [List.map_cons, Encoding.records, List.flatMap_cons, hItem, ih hRest, plusRecords,
        Emf.Entry.size_bytes]
      rfl

theorem isPlusType_eq (type : Nat) :
    Format.isPlusType type = decide (0x4001 ≤ type ∧ type ≤ 0x4044) := by
  rw [Format.isPlusType, Bool.decide_and]

section

variable {data : Bytes} {start : Nat}

/-- If no comment follows the header, the dword there decides by itself. -/
theorem leadsWithPlus_of_ne (hStart : data.u32At 4 = start) (hOther : data.u32At start ≠ 70) :
    Format.leadsWithPlus data =
      decide (0x4001 ≤ data.u32At start ∧ data.u32At start ≤ 0x4044) := by
  have hCode : (data.u32At start == Emf.Kind.comment.code) = false := beq_false_of_ne hOther
  simp only [Format.leadsWithPlus, hStart, hCode, isPlusType_eq, Bool.false_and, Bool.or_false]

/-- If one does, it has to name EMF+ and to begin with one of its types. -/
theorem leadsWithPlus_of_eq (hStart : data.u32At 4 = start) (hComment : data.u32At start = 70) :
    Format.leadsWithPlus data = (data.u32At (start + 12) == identifier &&
      decide (0x4001 ≤ data.u16At (start + 16) ∧ data.u16At (start + 16) ≤ 0x4044)) := by
  simp only [Format.leadsWithPlus, hStart, hComment, isPlusType_eq]
  rfl

/-- The format is looked up in the first item, at the places where this has its type
and, in a comment, the identifier and the type of the first EMF+ record. -/
theorem leadsWithPlus_of_hasPart {item : Item} {answer : Bool} (hStart : data.u32At 4 = start)
    (hEntry : data.HasPart start (Emf.Entry.encoding.bytes item.entry))
    (hAnswer : item.content.announces? = some answer) : Format.leadsWithPlus data = answer := by
  have hType : data.u32At start = item.content.type := Emf.Entry.type_eq hEntry
  have hPayload : data.HasPart (start + 8) item.content.payload :=
    Emf.Entry.hasPart_payload hEntry
  have hProper := item.proper
  cases hContent : item.content with
  | plain type payload =>
      rw [hContent] at hType hProper hAnswer
      have hOther : data.u32At start ≠ 70 := by
        rw [hType]
        exact hProper
      rw [leadsWithPlus_of_ne hStart hOther, hType]
      exact Option.some.inj hAnswer
  | comment payload =>
      rw [hContent] at hType hPayload hProper hAnswer
      rw [Content.announces?] at hAnswer
      split at hAnswer
      case isFalse => cases hAnswer
      case isTrue hRoom =>
        have hForeign : payload.u32At 4 ≠ identifier :=
          hProper.resolve_left (Nat.not_lt.2 hRoom)
        have hPlace : data.u32At (start + 12) = payload.u32At 4 :=
          hPayload.field_eq (show 4 + 4 ≤ payload.size from hRoom)
        rw [leadsWithPlus_of_eq hStart hType, hPlace, beq_false_of_ne hForeign, Bool.false_and]
        exact Option.some.inj hAnswer
  | plus entries padding =>
      rw [hContent] at hType hPayload hAnswer
      obtain ⟨-, hIdentifier, hBody⟩ := Content.hasPart_plus entries padding
      cases entries with
      | nil => cases hAnswer
      | cons entry entries =>
          have hPlace : data.u32At (start + 12) = identifier :=
            (hPayload.trans hIdentifier).u32At_eq (by decide)
          have hFirst : data.u16At (start + 16) = entry.type :=
            (hPayload.trans hBody).left.left.left.left.left.left.u16At_eq entry.type_lt
          rw [leadsWithPlus_of_eq hStart hType, hPlace, hFirst, beq_self_eq_true, Bool.true_and]
          exact Option.some.inj hAnswer

end

/-- In a file that is written the first item decides, so that it is known from the items whether
EMF+ is announced. -/
theorem leadsWithPlus_file (p : Emf.Prologue) {items : List Item} {answer : Bool}
    (hAnswer : announces? items = some answer) :
    Format.leadsWithPlus (file p items) = answer := by
  have hPart := p.hasPart_file (items.map Item.entry)
  have hStart : (file p items).u32At 4 = p.bytes.size :=
    (Bytes.field_append (by have := p.size_ge; omega) _).trans p.headerSize_eq
  cases items with
  | nil =>
      have hNone : (file p []).u32At p.bytes.size = 0 :=
        Bytes.field_eq_zero (by simp [file, Emf.Prologue.file, Encoding.stream])
      rw [leadsWithPlus_of_ne hStart (by simp [hNone]), hNone]
      exact Option.some.inj hAnswer
  | cons item items => exact leadsWithPlus_of_hasPart hStart hPart.left hAnswer

theorem detect_file (p : Emf.Prologue) (items : List Item) :
    Format.detect (file p items) =
      if Format.leadsWithPlus (file p items) then .emfPlus else .emf := by
  have hGe := p.size_ge
  have hSize : 88 ≤ (file p items).size := by
    rw [file, Emf.Prologue.file, Array.size_append]
    omega
  have hFirst : (file p items).u32At 0 = 1 :=
    (Bytes.field_append (by omega) _).trans p.recordType_eq
  have hSignature : (file p items).u32At 40 = 0x464D4520 :=
    (Bytes.field_append (by omega) _).trans p.signature_eq
  have hRoom : ¬(file p items).size < 4 := by omega
  have hPlaceable : ¬1 = Wmf.Placeable.expectedKey := by decide
  have hWmf : 1 ∉ Format.wmfMarks := by decide
  simp only [Format.detect, hFirst, if_neg hRoom, if_neg hPlaceable, if_neg hWmf]
  exact if_pos ⟨hSize, hSignature⟩

/-- Behind a header that counts them, all items are read back as EMF records, each
with its type, size, offset and payload. If no comment has more than the limit
allows, the EMF+ records are those of the comments laid out with such records,
with their types, flags, sizes, data and places in the file. The file is told to
be one of EMF or EMF+ records, and its first item tells which. -/
theorem decode_file (p : Emf.Prologue) (items : List Item)
    (hCount : items.length ≤ p.recordCount) :
    (Emf.File.decode (file p items)).result =
        .ok ⟨Emf.Header.read p.bytes,
          (Emf.Entry.encoding.records p.bytes.size (items.map Item.entry)).map .record⟩ ∧
      (∀ limit, (∀ item ∈ items, item.content.entries.length ≤ limit) →
        (File.decode limit (file p items)).result =
          .ok ⟨Emf.Header.read p.bytes, plusRecords p.bytes.size items⟩) ∧
      (Format.detect (file p items) = .emf ∨ Format.detect (file p items) = .emfPlus) ∧
      ∀ answer, announces? items = some answer →
        Format.detect (file p items) = if answer then .emfPlus else .emf := by
  have hCount' : (items.map Item.entry).length ≤ p.recordCount := by rwa [List.length_map]
  have hHeader : Emf.Header.decode (file p items) = .ok (Emf.Header.read p.bytes) :=
    p.decode_append _
  have hVisits := p.visits_file hCount'
  refine ⟨?_, ?_, ?_, ?_⟩
  · rw [Emf.File.result_of_header hHeader, file, hVisits]
  · intro limit hLimit
    rw [File.result_of_header hHeader, file, hVisits, Visit.records_map_record,
      flatMap_contribution hLimit]
  · rw [detect_file]
    split
    · exact .inr rfl
    · exact .inl rfl
  · intro answer hAnswer
    rw [detect_file, leadsWithPlus_file p hAnswer]

/-- A header of 92 bytes that announces three records. -/
def longPrologue : Emf.Prologue where
  bytes :=
    #[1, 0, 0, 0, 92, 0, 0, 0] ++ Array.replicate 32 0 ++ #[0x20, 0x45, 0x4D, 0x46] ++
      Array.replicate 8 0 ++ #[3, 0, 0, 0] ++ Array.replicate 36 0
  size_ge := by decide
  recordType_eq := by decide
  headerSize_eq := by decide
  signature_eq := by decide

/-- A comment with two EMF+ records, one of them padded, and padding behind them, an
empty plain record, and a comment of another kind. -/
def mixedItems : List Item :=
  [⟨.plus [⟨0x4001, 1, #[1, 2, 3], #[0], by decide, by decide, by decide⟩,
      ⟨0x4002, 0, #[9], #[], by decide, by decide, by decide⟩] #[0, 0, 0],
    by decide, by decide, by decide, by decide⟩,
   ⟨.plain 33 #[], by decide, by decide, by decide, by decide⟩,
   ⟨.comment #[4, 0, 0, 0, 0x47, 0x44, 0x49, 0x43], by decide, by decide, by decide, by decide⟩]

theorem decode_file_mixedItems :
    (Emf.File.decode (file longPrologue mixedItems)).result =
        .ok ⟨Emf.Header.read longPrologue.bytes,
          (Emf.Entry.encoding.records 92 (mixedItems.map Item.entry)).map .record⟩ ∧
      (File.decode 2 (file longPrologue mixedItems)).result =
        .ok ⟨Emf.Header.read longPrologue.bytes,
          [⟨0x4001, 16, 1, 108, #[1, 2, 3]⟩, ⟨0x4002, 13, 0, 124, #[9]⟩]⟩ ∧
      Format.detect (file longPrologue mixedItems) = .emfPlus := by
  have hCount : mixedItems.length ≤ longPrologue.recordCount := by decide +kernel
  have hLimit : ∀ item ∈ mixedItems, item.content.entries.length ≤ 2 := by decide
  obtain ⟨hOuter, hInner, -, hFormat⟩ := decode_file longPrologue mixedItems hCount
  exact ⟨hOuter, hInner 2 hLimit, hFormat true rfl⟩

end Metafile.Plus
