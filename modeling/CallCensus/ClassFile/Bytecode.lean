import CallCensus.Bytes
import CallCensus.ClassFile.DecodeError

namespace CallCensus.Bytecode

inductive Shape where
  | fixed (operandBytes : Nat)
  | tableSwitch
  | lookupSwitch
  | wide
  deriving Repr, DecidableEq

-- The opcodes with operands of a fixed size: first, last, and that size.
def fixedSizes : List (Nat × Nat × Nat) :=
  [(0x00, 0x0F, 0), (0x10, 0x10, 1), (0x11, 0x11, 2), (0x12, 0x12, 1), (0x13, 0x14, 2),
    (0x15, 0x19, 1), (0x1A, 0x35, 0), (0x36, 0x3A, 1), (0x3B, 0x83, 0), (0x84, 0x84, 2),
    (0x85, 0x98, 0), (0x99, 0xA8, 2), (0xA9, 0xA9, 1), (0xAC, 0xB1, 0), (0xB2, 0xB8, 2),
    (0xB9, 0xBA, 4), (0xBB, 0xBB, 2), (0xBC, 0xBC, 1), (0xBD, 0xBD, 2), (0xBE, 0xBF, 0),
    (0xC0, 0xC1, 2), (0xC2, 0xC3, 0), (0xC5, 0xC5, 3), (0xC6, 0xC7, 2), (0xC8, 0xC9, 4),
    (0xCA, 0xCA, 0), (0xFE, 0xFF, 0)]

-- The shape of the instructions with this opcode. The opcodes 0xCB to 0xFD have none.
def shape? (opcode : UInt8) : Option Shape :=
  if opcode = 0xAA then some .tableSwitch
  else if opcode = 0xAB then some .lookupSwitch
  else if opcode = 0xC4 then some .wide
  else
    (fixedSizes.find? fun (first, last, _) => first ≤ opcode.toNat && opcode.toNat ≤ last).map
      fun (_, _, size) => .fixed size

def signed (value : Nat) : Int := if value < 0x80000000 then value else (value : Int) - 0x100000000

def word? (bytes : List UInt8) : Option Int :=
  match Bytes.cut 4 bytes with
  | .error _ => none
  | .ok (front, _) => some (signed (Bytes.bigEndian front))

-- The fields of a switch start at a multiple of four from the start of the method.
def padding (pc : Nat) : Nat := 3 - pc % 4

def operandLength (pc : Nat) (opcode : UInt8) (rest : List UInt8) : Except DecodeError Nat :=
  match shape? opcode with
  | none => .error (.unknownOpcode opcode pc)
  | some (.fixed size) => .ok size
  | some .tableSwitch =>
    match word? (rest.drop (padding pc + 4)), word? (rest.drop (padding pc + 8)) with
    | some low, some high =>
      if high < low then .error (.truncatedCode pc)
      else .ok (padding pc + 12 + (high - low + 1).toNat * 4)
    | _, _ => .error (.truncatedCode pc)
  | some .lookupSwitch =>
    match word? (rest.drop (padding pc + 4)) with
    | some pairs =>
      if pairs < 0 then .error (.truncatedCode pc) else .ok (padding pc + 8 + pairs.toNat * 8)
    | none => .error (.truncatedCode pc)
  | some .wide =>
    match rest with
    | [] => .error (.truncatedCode pc)
    -- The widened increment has a second operand of two bytes.
    | modified :: _ => .ok (if modified = 0x84 then 5 else 3)

-- The four instructions that call a method of a named class.
def isInvocation (opcode : UInt8) : Bool := 0xB6 ≤ opcode && opcode ≤ 0xB9

def invoked (opcode : UInt8) (operands : List UInt8) : List UInt16 :=
  if isInvocation opcode then [(Bytes.bigEndian (operands.take 2)).toUInt16] else []

-- The constants named by the calls in `code`, which starts `pc` bytes into its method.
def invocationsFrom (pc : Nat) : (code : List UInt8) → Except DecodeError (List UInt16)
  | [] => .ok []
  | opcode :: rest =>
    match operandLength pc opcode rest with
    | .error error => .error error
    | .ok size =>
      match _hcut : Bytes.cut size rest with
      | .error _ => .error (.truncatedCode pc)
      | .ok (operands, following) => do
        return invoked opcode operands ++ (← invocationsFrom (pc + 1 + size) following)
termination_by code => code.length
decreasing_by
  have := congrArg List.length (Bytes.append_eq_of_cut _hcut).1
  simp only [List.length_append, List.length_cons] at this ⊢
  omega

def invocations (code : List UInt8) : Except DecodeError (List UInt16) := invocationsFrom 0 code

end CallCensus.Bytecode
