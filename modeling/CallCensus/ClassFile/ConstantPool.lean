import CallCensus.ClassFile.Cursor
import CallCensus.Text.ModifiedUtf8

namespace CallCensus

inductive Slot where
  | utf8 (text : String)
  | classRef (name : UInt16)
  | methodRef (owner : UInt16)
  -- A constant that nothing is looked up in.
  | other
  | unusable
  deriving Repr, DecidableEq

-- Slot zero holds nothing, nor does the slot behind a wide constant.
structure ConstantPool where
  slots : List Slot
  deriving Repr, DecidableEq

namespace ConstantPool

-- The size of a constant that is not looked at.
def plainSize? (tag : UInt8) : Option Nat :=
  match tag.toNat with
  | 3 | 4 | 9 | 12 | 17 | 18 => some 4
  | 5 | 6 => some 8
  | 8 | 16 | 19 | 20 => some 2
  | 15 => some 3
  | _ => none

def isWide (tag : UInt8) : Bool := tag = 5 || tag = 6

def readSlot (tag : UInt8) (index : UInt16) : Read Slot := do
  match tag.toNat with
  | 1 =>
    let length ← Read.u16
    match ModifiedUtf8.decode? (← Read.bytes length.toNat) with
    | some text => return .utf8 (String.ofList text)
    | none => throw (.invalidUtf8 index)
  | 7 => return .classRef (← Read.u16)
  | 10 | 11 =>
    let owner ← Read.u16
    Read.skip 2
    return .methodRef owner
  | _ =>
    match plainSize? tag with
    | some size =>
      Read.skip size
      return .other
    | none => throw (.unknownConstantTag tag index)

-- Reads constants until `count` slots are filled, of which `filled` are already.
-- A wide constant in the last slot fills one slot more.
def readSlots (count filled : Nat) : Read (List Slot) :=
  if filled < count then do
    let tag ← Read.u8
    let slot ← readSlot tag filled.toUInt16
    if isWide tag then return slot :: .unusable :: (← readSlots count (filled + 2))
    else return slot :: (← readSlots count (filled + 1))
  else pure []
termination_by count - filled

def read : Read ConstantPool := do
  let count ← Read.u16
  return ⟨.unusable :: (← readSlots count.toNat 1)⟩

def get? (pool : ConstantPool) (index : UInt16) : Option Slot := pool.slots[index.toNat]?

def text (pool : ConstantPool) (index : UInt16) : Except DecodeError String :=
  match pool.get? index with
  | some (.utf8 text) => .ok text
  | _ => .error (.invalidConstant index .utf8)

def className (pool : ConstantPool) (index : UInt16) : Except DecodeError String :=
  match pool.get? index with
  | some (.classRef name) => pool.text name
  | _ => .error (.invalidConstant index .classRef)

def methodOwner (pool : ConstantPool) (index : UInt16) : Except DecodeError String :=
  match pool.get? index with
  | some (.methodRef owner) => pool.className owner
  | _ => .error (.invalidConstant index .methodRef)

end ConstantPool

end CallCensus
