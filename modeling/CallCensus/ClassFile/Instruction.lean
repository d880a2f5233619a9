import CallCensus.ClassFile.Bytecode

namespace CallCensus.Bytecode

inductive Instruction where
  -- An opcode whose operands have a fixed size.
  | plain (opcode : UInt8) (operands : List UInt8)
  | tableSwitch (padding : List UInt8) (fallback low high : UInt32) (targets : List UInt32)
  | lookupSwitch (padding : List UInt8) (fallback : UInt32) (pairs : List (UInt32 × UInt32))
  -- Another opcode with wider operands.
  | wide (modified : UInt8) (operands : List UInt8)
  deriving DecidableEq, Repr

namespace Instruction

def bytes : Instruction → List UInt8
  | .plain opcode operands => opcode :: operands
  | .tableSwitch padding fallback low high targets =>
    0xAA :: padding ++ Bytes.ofUInt32 fallback ++ Bytes.ofUInt32 low ++ Bytes.ofUInt32 high ++
      targets.flatMap Bytes.ofUInt32
  | .lookupSwitch padding fallback pairs =>
    0xAB :: padding ++ Bytes.ofUInt32 fallback ++ Bytes.toBigEndian 4 pairs.length ++
      pairs.flatMap fun pair => Bytes.ofUInt32 pair.1 ++ Bytes.ofUInt32 pair.2
  | .wide modified operands => 0xC4 :: modified :: operands

-- Padding fills up to the next multiple of four after an opcode at `pc`.
def Pads (pc : Nat) (padding : List UInt8) : Prop :=
  padding.length < 4 ∧ (pc + 1 + padding.length) % 4 = 0

-- How many bytes the operands of an instruction take, if all instructions with its opcode have as
-- many. The opcodes from 0xCB to 0xFD stand for no instruction.
def operandSize? (opcode : UInt8) : Option Nat :=
  let number := opcode.toNat
  if number ∈ [0xAA, 0xAB, 0xC4] ∨ 0xCB ≤ number ∧ number ≤ 0xFD then none
  -- Calls with a count or a zero behind the constant, and jumps over long distances.
  else if number ∈ [0xB9, 0xBA, 0xC8, 0xC9] then some 4
  -- The array of several dimensions, with their number behind the constant.
  else if number = 0xC5 then some 3
  -- Values of two bytes, increments, jumps, and what else names a constant.
  else if number ∈ [0x11, 0x13, 0x14, 0x84, 0xBB, 0xBD, 0xC0, 0xC1, 0xC6, 0xC7] ∨
      0x99 ≤ number ∧ number ≤ 0xA8 ∨ 0xB2 ≤ number ∧ number ≤ 0xB8 then some 2
  -- Values of one byte, local variables, and arrays of primitive types.
  else if number ∈ [0x10, 0x12, 0xA9, 0xBC] ∨ 0x15 ≤ number ∧ number ≤ 0x19 ∨
      0x36 ≤ number ∧ number ≤ 0x3A then some 1
  else some 0

def FitsAt (pc : Nat) : Instruction → Prop
  | .plain opcode operands => operandSize? opcode = some operands.length
  | .tableSwitch padding _ low high targets =>
    Pads pc padding ∧ signed low.toNat ≤ signed high.toNat ∧
      targets.length = signed high.toNat - signed low.toNat + 1
  | .lookupSwitch padding _ pairs => Pads pc padding ∧ pairs.length < 0x80000000
  | .wide modified operands => operands.length = if modified = 0x84 then 4 else 2

-- The constant that an instruction names if it calls a virtual, a special, a static or an interface
-- method.
def reference? : Instruction → Option UInt16
  | .plain opcode operands =>
    if opcode ∈ [0xB6, 0xB7, 0xB8, 0xB9] then some (Bytes.bigEndian (operands.take 2)).toUInt16
    else none
  | _ => none

def FitFrom (pc : Nat) : List Instruction → Prop
  | [] => True
  | instruction :: rest =>
    instruction.FitsAt pc ∧ FitFrom (pc + instruction.bytes.length) rest

def assemble (instructions : List Instruction) : List UInt8 := instructions.flatMap bytes

def references (instructions : List Instruction) : List UInt16 :=
  instructions.filterMap reference?

end Instruction

end CallCensus.Bytecode
