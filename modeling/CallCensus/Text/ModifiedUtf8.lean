import CallCensus.Text.Utf16

namespace CallCensus.ModifiedUtf8

-- Zero takes two bytes, so that no byte of a text is zero.
def ofUnit (unit : UInt16) : List UInt8 :=
  let value := unit.toNat
  if 0 < value ∧ value < 0x80 then [value.toUInt8]
  else if value < 0x800 then [(0xC0 + value / 0x40).toUInt8, (0x80 + value % 0x40).toUInt8]
  else [(0xE0 + value / 0x1000).toUInt8, (0x80 + value / 0x40 % 0x40).toUInt8,
    (0x80 + value % 0x40).toUInt8]

def encodeUnits (units : List UInt16) : List UInt8 := units.flatMap ofUnit

def encode (text : List Char) : List UInt8 := encodeUnits (Utf16.encode text)

def continuation? (byte : UInt8) : Option Nat :=
  if byte.toNat / 0x40 = 2 then some (byte.toNat % 0x40) else none

-- A code unit of two bytes. Values below 0x80 have a shorter form, apart from zero.
def twoBytes? (first second : UInt8) : Option UInt16 := do
  let value := first.toNat % 0x20 * 0x40 + (← continuation? second)
  if 0 < value ∧ value < 0x80 then none else some value.toUInt16

def threeBytes? (first second third : UInt8) : Option UInt16 := do
  let value := first.toNat % 0x10 * 0x1000 + (← continuation? second) * 0x40 +
    (← continuation? third)
  if value < 0x800 then none else some value.toUInt16

def decodeUnits? : List UInt8 → Option (List UInt16)
  | [] => some []
  | first :: rest =>
    if 0 < first.toNat ∧ first.toNat < 0x80 then
      (decodeUnits? rest).map (first.toUInt16 :: ·)
    else if 0xC0 ≤ first.toNat ∧ first.toNat < 0xE0 then
      match rest with
      | second :: rest => do
        let unit ← twoBytes? first second
        (decodeUnits? rest).map (unit :: ·)
      | [] => none
    else if 0xE0 ≤ first.toNat ∧ first.toNat < 0xF0 then
      match rest with
      | second :: third :: rest => do
        let unit ← threeBytes? first second third
        (decodeUnits? rest).map (unit :: ·)
      | _ => none
    else none

-- The text that these bytes spell: surrogates have to come in pairs.
def decode? (bytes : List UInt8) : Option (List Char) := do
  Utf16.decode? (← decodeUnits? bytes)

end CallCensus.ModifiedUtf8
