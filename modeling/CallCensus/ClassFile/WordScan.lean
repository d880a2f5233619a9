import CallCensus.ClassFile.Bytecode

namespace CallCensus.WordScan

open Bytecode

-- Operations that have a result only where it is the exact one.
def add? (first second : UInt64) : Option UInt64 :=
  if first.toNat + second.toNat < 0x10000000000000000 then some (first + second) else none

def sub? (first second : UInt64) : Option UInt64 :=
  if second.toNat ≤ first.toNat then some (first - second) else none

def mul? (first second : UInt64) : Option UInt64 :=
  if first.toNat * second.toNat < 0x10000000000000000 then some (first * second) else none

def isSigned (value : Int) : Bool := -0x8000000000000000 ≤ value && value < 0x8000000000000000

def addSigned? (first second : Int64) : Option Int64 :=
  if isSigned (first.toInt + second.toInt) then some (first + second) else none

def subSigned? (first second : Int64) : Option Int64 :=
  if isSigned (first.toInt - second.toInt) then some (first - second) else none

-- An attempt that can also stop without an answer: where a sum, a difference or a product does not
-- fit, where a byte is taken that is not there, and where it goes on for more steps than it is given.
abbrev Attempt := ExceptT DecodeError Option

def byteAt? (code : List UInt8) (place : UInt64) : Option UInt8 := code[place.toNat]?

def switchOperands (pc : UInt64) : Option UInt64 := do
  let after ← add? pc 1
  let gap ← sub? 4 (after % 4)
  add? after (gap % 4)

def readSigned (code : List UInt8) (place pc : UInt64) : Attempt Int32 := do
  let stop ← add? place 4
  if code.length < stop.toNat then throw (.truncatedCode pc.toNat)
  else return (Bytes.bigEndian ((code.drop place.toNat).take 4)).toUInt32.toInt32

def entryCount (low high : Int32) : Option UInt64 := do
  let span ← subSigned? high.toInt64 low.toInt64
  let count ← addSigned? span 1
  return count.toUInt64

-- The size of a switch at `pc`, with its fields at `base`: so many of its bytes stand in front of the
-- entries, and each of the entries has the same width.
def switchLength (pc base front count width : UInt64) : Option UInt64 := do
  let filled ← sub? base pc
  add? (← add? filled front) (← mul? count width)

def instructionLength (code : List UInt8) (pc : UInt64) : Attempt UInt64 := do
  let opcode ← byteAt? code pc
  match shape? opcode with
  | none => throw (.unknownOpcode opcode pc.toNat)
  | some (.fixed size) => return (size + 1).toUInt64
  | some .tableSwitch =>
    let base ← switchOperands pc
    let low ← readSigned code (← add? base 4) pc
    let high ← readSigned code (← add? base 8) pc
    if high < low then throw (.truncatedCode pc.toNat)
    else switchLength pc base 12 (← entryCount low high) 4
  | some .lookupSwitch =>
    let base ← switchOperands pc
    let pairs ← readSigned code (← add? base 4) pc
    if pairs < 0 then throw (.truncatedCode pc.toNat)
    else switchLength pc base 8 pairs.toInt64.toUInt64 8
  | some .wide =>
    match byteAt? code (← add? pc 1) with
    | none => throw (.truncatedCode pc.toNat)
    | some modified => return if modified = 0x84 then 6 else 4

def advance (code : List UInt8) (pc : UInt64) : Attempt UInt64 := do
  let length ← instructionLength code pc
  let next ← add? pc length
  if code.length < next.toNat then throw (.truncatedCode pc.toNat)
  else return next

def invokedAt (code : List UInt8) (pc : UInt64) : Option (List UInt16) := do
  if isInvocation (← byteAt? code pc) then
    let first ← byteAt? code (← add? pc 1)
    let second ← byteAt? code (← add? pc 2)
    return [(Bytes.bigEndian [first, second]).toUInt16]
  else return []

-- The constants named by the calls from `pc` on, where so many steps come to the end of the code.
def scanFrom (code : List UInt8) : (steps : Nat) → (pc : UInt64) → Attempt (List UInt16)
  | 0, pc => if pc.toNat < code.length then liftM (none : Option (List UInt16)) else return []
  | steps + 1, pc =>
    if pc.toNat < code.length then do
      let next ← advance code pc
      let indices ← invokedAt code pc
      return indices ++ (← scanFrom code steps next)
    else return []

end CallCensus.WordScan
