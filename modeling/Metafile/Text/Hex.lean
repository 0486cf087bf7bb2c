import Metafile.Bytes

/-! Hexadecimal text in lower case. -/

namespace Metafile.Text

private def hexChar (digit : Nat) : Char := if digit < 10 then Char.ofNat (48 + digit)
  else Char.ofNat (87 + digit)

/-- The digits of a number, with zeros in front up to the given count. -/
def hexDigits (count value : Nat) : List Char :=
  let digits := (Nat.toDigits 16 value)
  List.replicate (count - digits.length) '0' ++ digits

/-- A number with the mark `0x` and at least `count` digits. -/
def hexNumber (count value : Nat) : String := "0x" ++ String.ofList (hexDigits count value)

/-- Two digits for each byte. -/
def hexBytes (bytes : Bytes) : String :=
  String.ofList (bytes.toList.flatMap fun byte =>
    [hexChar (byte.toNat / 16), hexChar (byte.toNat % 16)])

private def hexValue? (c : Char) : Option Nat :=
  if '0' ≤ c ∧ c ≤ '9' then some (c.toNat - 48)
  else if 'a' ≤ c ∧ c ≤ 'f' then some (c.toNat - 87)
  else none

private def hexPairs? : List Char → Option (List UInt8)
  | [] => some []
  | [_] => none
  | high :: low :: rest => do
    let byte := UInt8.ofNat (16 * (← hexValue? high) + (← hexValue? low))
    return byte :: (← hexPairs? rest)

/-- The bytes written by a text of digit pairs, if it is one. -/
def bytesOfHex? (text : String) : Option Bytes := (hexPairs? text.toList).map List.toArray

end Metafile.Text
