import CallCensus.Text.Numerals

namespace CallCensus

inductive ConstantKind where
  | utf8
  | classRef
  | methodRef
  deriving Repr, DecidableEq

def ConstantKind.name : ConstantKind → String
  | .utf8 => "Utf8"
  | .classRef => "Class"
  | .methodRef => "Methodref"

inductive DecodeError where
  | badMagic (found : UInt32)
  -- A read at `offset` wants `needed` bytes more than there are.
  | truncated (offset needed : Nat)
  | unknownConstantTag (tag : UInt8) (index : UInt16)
  -- There is no constant of the expected kind at `index`.
  | invalidConstant (index : UInt16) (expected : ConstantKind)
  | unknownOpcode (opcode : UInt8) (pc : Nat)
  -- The instruction at `pc` does not fit into its method, or its header contradicts itself.
  | truncatedCode (pc : Nat)
  | invalidUtf8 (index : UInt16)
  -- The class file ends at `offset`, `count` bytes before the end of the data.
  | trailingBytes (offset count : Nat)
  deriving Repr, DecidableEq

def DecodeError.message : DecodeError → String
  | .badMagic found => "bad magic number " ++ Hexadecimal.render 8 found.toNat
  | .truncated offset needed =>
    "unexpected end of data at offset " ++ toString offset ++ " (needed " ++ toString needed ++
      " more bytes)"
  | .unknownConstantTag tag index =>
    "unknown constant pool tag " ++ toString tag.toNat ++ " at index " ++ toString index.toNat
  | .invalidConstant index expected =>
    "constant pool index " ++ toString index.toNat ++ " is not a " ++ expected.name
  | .unknownOpcode opcode pc =>
    "unknown opcode " ++ Hexadecimal.render 2 opcode.toNat ++ " at pc " ++ toString pc
  | .truncatedCode pc =>
    "instruction at pc " ++ toString pc ++ " runs past the end of the method body"
  | .invalidUtf8 index =>
    "constant pool entry " ++ toString index.toNat ++ " is not valid modified UTF-8"
  | .trailingBytes offset count =>
    toString count ++ " unexpected bytes after the class attributes at offset " ++ toString offset

end CallCensus
