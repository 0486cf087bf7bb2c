import Metafile.Bytes

/-! Text stored in records: one byte per character in the code page of Western
Windows systems, or UTF-16 with the low byte first. Stored text may be padded
with NUL characters, which do not belong to it when they stand at its end. -/

namespace Metafile.Text

/-- The characters of the bytes 0x80 to 0x9f in Windows-1252. The five bytes
that the code page leaves open stand for the control characters of the same
number. -/
def windows1252High : List Nat :=
  [0x20AC, 0x0081, 0x201A, 0x0192, 0x201E, 0x2026, 0x2020, 0x2021,
   0x02C6, 0x2030, 0x0160, 0x2039, 0x0152, 0x008D, 0x017D, 0x008F,
   0x0090, 0x2018, 0x2019, 0x201C, 0x201D, 0x2022, 0x2013, 0x2014,
   0x02DC, 0x2122, 0x0161, 0x203A, 0x0153, 0x009D, 0x017E, 0x0178]

/-- All other bytes have the character of their own number. -/
def windows1252Char (byte : UInt8) : Char :=
  let code := byte.toNat
  if 0x80 ≤ code ∧ code < 0xA0 then Char.ofNat (windows1252High.getD (code - 0x80) code)
  else Char.ofNat code

/-- A code page gives each byte a character. All of them agree on ASCII. -/
structure CodePage where
  char : UInt8 → Char
  char_of_lt : ∀ byte : UInt8, byte.toNat < 0x80 → char byte = Char.ofNat byte.toNat

/-- The code page of the stored texts. -/
def windows1252 : CodePage where
  char := windows1252Char
  char_of_lt byte hAscii := by
    unfold windows1252Char
    dsimp only
    rw [if_neg (by omega)]

/-- Drops the NUL characters at the end of a text; those inside it stay. -/
def trimNuls (chars : List Char) : List Char := (chars.reverse.dropWhile (· == '\x00')).reverse

/-- The text of single-byte characters in a code page. -/
def CodePage.decode (page : CodePage) (bytes : Bytes) : String :=
  String.ofList (trimNuls (bytes.toList.map page.char))

/-- The text of single-byte characters. -/
def ofWindows1252 (bytes : Bytes) : String := windows1252.decode bytes

/-- The 16-bit units of a byte sequence; an odd byte at the end is no unit. -/
def utf16Units : List UInt8 → List Nat
  | low :: high :: rest => (low.toNat + 256 * high.toNat) :: utf16Units rest
  | _ => []

def isHighSurrogate (unit : Nat) : Bool := 0xD800 ≤ unit && unit < 0xDC00

def isLowSurrogate (unit : Nat) : Bool := 0xDC00 ≤ unit && unit < 0xE000

/-- The characters of a sequence of units. A surrogate without its partner
becomes the replacement character. -/
def utf16Chars : List Nat → List Char
  | [] => []
  | [unit] =>
    [if isHighSurrogate unit || isLowSurrogate unit then '\uFFFD' else Char.ofNat unit]
  | unit :: next :: rest =>
    if isHighSurrogate unit && isLowSurrogate next then
      Char.ofNat (0x10000 + (unit - 0xD800) * 0x400 + (next - 0xDC00)) :: utf16Chars rest
    else if isHighSurrogate unit || isLowSurrogate unit then '\uFFFD' :: utf16Chars (next :: rest)
    else Char.ofNat unit :: utf16Chars (next :: rest)

/-- The text of 16-bit units. -/
def ofUtf16 (bytes : Bytes) : String :=
  String.ofList (trimNuls (utf16Chars (utf16Units bytes.toList)))

end Metafile.Text
