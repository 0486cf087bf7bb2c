import Mathlib.Data.List.DropRight
import Metafile.Proofs.Bytes.Fields
import Metafile.Text.Encoding

/-! Texts in records. The NULs that are dropped from a stored text are those at its end, and a
text that is written in UTF-16, with pairs of surrogates, is read back. -/

namespace Metafile.Text

/-- The text is the characters without the NULs at their end. -/
structure IsTrimmed (chars : List Char) (text : String) : Prop where
  exists_nuls : ∃ count, chars = text.toList ++ List.replicate count '\x00'
  getLast?_ne : text.toList.getLast? ≠ some '\x00'

/-- NULs are dropped from the end of a text. Those in its middle stay. -/
theorem trimNuls_eq_rdropWhile (chars : List Char) :
    trimNuls chars = chars.rdropWhile (· == '\x00') := rfl

/-- What is left is a beginning of the characters that does not end in a NUL, and nothing else
has been dropped. -/
theorem isTrimmed_trimNuls (chars : List Char) :
    IsTrimmed chars (String.ofList (trimNuls chars)) := by
  rw [trimNuls_eq_rdropWhile]
  constructor
  · refine ⟨(chars.reverse.takeWhile (· == '\x00')).length, ?_⟩
    have hNuls : chars.reverse.takeWhile (· == '\x00') =
        List.replicate (chars.reverse.takeWhile (· == '\x00')).length '\x00' :=
      List.eq_replicate_of_mem fun c hMem => by simpa using List.mem_takeWhile_imp hMem
    have hChars := congrArg List.reverse
      (List.takeWhile_append_dropWhile (p := (· == '\x00')) (l := chars.reverse))
    rw [List.reverse_append, List.reverse_reverse, hNuls, List.reverse_replicate] at hChars
    rw [String.toList_ofList]
    exact hChars.symm
  · rw [String.toList_ofList]
    intro hLast
    obtain ⟨hSome, hNul⟩ := List.mem_getLast?_eq_getLast hLast
    exact List.rdropWhile_last_not _ _ hSome (by simp [← hNul])

/-- Whatever the code page is, a stored text has all its characters but the NULs at its end. -/
theorem CodePage.isTrimmed_decode (page : CodePage) (bytes : Bytes) :
    IsTrimmed (bytes.toList.map page.char) (page.decode bytes) :=
  isTrimmed_trimNuls _

/-- Text of the code page that records are written in is what its bytes stand for, trimmed. -/
theorem isTrimmed_ofWindows1252 (bytes : Bytes) :
    IsTrimmed (bytes.toList.map windows1252Char) (ofWindows1252 bytes) :=
  windows1252.isTrimmed_decode bytes

/-- Bytes of zero at the end of a text do not belong to it, for no code page has another character
for them than NUL. -/
theorem CodePage.decode_pad (page : CodePage) (bytes : Bytes) (count : Nat) :
    page.decode (bytes ++ Array.replicate count 0) = page.decode bytes := by
  have hNul : page.char 0 = '\x00' := page.char_of_lt 0 (by decide)
  unfold decode trimNuls
  rw [Array.toList_append, List.map_append, List.reverse_append, Array.toList_replicate,
    List.map_replicate, List.reverse_replicate, hNul, List.dropWhile_append_of_pos]
  intro c hMem
  rw [List.eq_of_mem_replicate hMem]
  rfl

/-- Nothing is dropped from characters that do not end in a NUL. -/
theorem trimNuls_eq_self {chars : List Char} (hLast : chars.getLast? ≠ some '\x00') :
    trimNuls chars = chars := by
  rw [trimNuls_eq_rdropWhile, List.rdropWhile_eq_self_iff]
  intro hSome hNul
  exact hLast (by rw [List.getLast?_eq_getLast_of_ne_nil hSome, eq_of_beq hNul])

/-- The units of a character are its number, or a pair of surrogates if that has no room in 16
bits. -/
def unitsOf (c : Char) : List Nat :=
  if c.toNat < 0x10000 then [c.toNat]
  else [0xD800 + (c.toNat - 0x10000) / 0x400, 0xDC00 + (c.toNat - 0x10000) % 0x400]

def utf16 (text : String) : List Nat := text.toList.flatMap unitsOf

/-- The units of a text with their low bytes first. -/
def utf16Bytes (text : String) : Bytes :=
  Bytes.ofFields ((utf16 text).map fun unit => ⟨2, unit⟩)

theorem size_utf16Bytes (text : String) : (utf16Bytes text).size = 2 * (utf16 text).length := by
  rw [utf16Bytes, Bytes.size_ofFields, List.map_map]
  simp [Function.comp_def, Nat.mul_comm]

theorem toNat_lt_or_lt (c : Char) : c.toNat < 0xD800 ∨ 0xDFFF < c.toNat ∧ c.toNat < 0x110000 :=
  c.valid

/-- The units of a character fit into two bytes. Characters that do not are split into
surrogates. -/
theorem unitsOf_lt {c : Char} {unit : Nat} (hMem : unit ∈ unitsOf c) : unit < 2 ^ 16 := by
  have hChar := toNat_lt_or_lt c
  unfold unitsOf at hMem
  split at hMem
  · rw [List.mem_singleton.1 hMem]
    assumption
  · simp only [List.mem_cons, List.not_mem_nil, or_false] at hMem
    omega

theorem utf16_lt {text : String} {unit : Nat} (hMem : unit ∈ utf16 text) : unit < 2 ^ 16 := by
  obtain ⟨c, -, hUnit⟩ := List.mem_flatMap.1 hMem
  exact unitsOf_lt hUnit

/-- The units of a character are read as the character, whatever follows them. -/
theorem utf16Chars_unitsOf_append (c : Char) (rest : List Nat) :
    utf16Chars (unitsOf c ++ rest) = c :: utf16Chars rest := by
  have hChar := toNat_lt_or_lt c
  unfold unitsOf
  by_cases hPlane : c.toNat < 0x10000
  · have hHigh : isHighSurrogate c.toNat = false := by
      simp only [isHighSurrogate, Bool.and_eq_false_iff, decide_eq_false_iff_not]
      omega
    have hLow : isLowSurrogate c.toNat = false := by
      simp only [isLowSurrogate, Bool.and_eq_false_iff, decide_eq_false_iff_not]
      omega
    rw [if_pos hPlane, List.singleton_append]
    cases rest <;> simp [utf16Chars, hHigh, hLow]
  · rw [if_neg hPlane, List.cons_append, List.singleton_append]
    generalize hOffset : c.toNat - 0x10000 = offset
    have hHigh : isHighSurrogate (0xD800 + offset / 0x400) = true := by
      simp only [isHighSurrogate, Bool.and_eq_true, decide_eq_true_eq]
      omega
    have hLow : isLowSurrogate (0xDC00 + offset % 0x400) = true := by
      simp only [isLowSurrogate, Bool.and_eq_true, decide_eq_true_eq]
      omega
    have hNumber : 0x10000 + (0xD800 + offset / 0x400 - 0xD800) * 0x400 +
        (0xDC00 + offset % 0x400 - 0xDC00) = c.toNat := by
      omega
    rw [utf16Chars, hHigh, hLow, if_pos (by decide), hNumber, Char.ofNat_toNat]

/-- A text is found again in its units. The induction is on the characters, as the units of one
of them never run into those of the next. -/
theorem utf16Chars_utf16 (text : String) : utf16Chars (utf16 text) = text.toList := by
  unfold utf16
  induction text.toList with
  | nil => rfl
  | cons c rest ih => rw [List.flatMap_cons, utf16Chars_unitsOf_append, ih]

/-- Units are read back from the fields that they are written in. -/
theorem utf16Units_ofFields {units : List Nat} (hUnits : ∀ unit ∈ units, unit < 2 ^ 16) :
    utf16Units (Bytes.ofFields (units.map fun unit => ⟨2, unit⟩)).toList = units := by
  induction units with
  | nil => rfl
  | cons unit rest ih =>
      obtain ⟨hFirst, hRest⟩ := List.forall_mem_cons.1 hUnits
      have hBytes : (Bytes.ofNat 2 unit).toList =
          [UInt8.ofNat unit, UInt8.ofNat (unit / 256)] := rfl
      have hUnit : (UInt8.ofNat unit).toNat + 256 * (UInt8.ofNat (unit / 256)).toNat = unit := by
        simp only [UInt8.toNat_ofNat']
        omega
      rw [List.map_cons, Bytes.ofFields, Array.toList_append, hBytes, List.cons_append,
        List.singleton_append, utf16Units, hUnit, ih hRest]

/-- A text without a NUL at its end is read back from its bytes. -/
theorem ofUtf16_utf16Bytes {text : String} (hLast : text.toList.getLast? ≠ some '\x00') :
    ofUtf16 (utf16Bytes text) = text := by
  have hUnits : utf16Units (utf16Bytes text).toList = utf16 text :=
    utf16Units_ofFields fun _ => utf16_lt
  rw [ofUtf16, hUnits, utf16Chars_utf16, trimNuls_eq_self hLast, String.ofList_toList]

end Metafile.Text
