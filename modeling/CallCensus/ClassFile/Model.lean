import CallCensus.ClassFile.ConstantPool
import CallCensus.ClassFile.Instruction

namespace CallCensus

-- A constant as it is written. The payload of a plain constant is not looked at.
inductive Constant where
  | utf8 (text : List UInt8)
  | classRef (name : UInt16)
  | methodRef (interface : Bool) (owner nameAndType : UInt16)
  | plain (tag : UInt8) (payload : List UInt8)
  deriving DecidableEq, Repr

namespace Constant

def bytes : Constant → List UInt8
  | .utf8 text => 1 :: Bytes.toBigEndian 2 text.length ++ text
  | .classRef name => 7 :: Bytes.ofUInt16 name
  | .methodRef interface owner nameAndType =>
    (if interface then 11 else 10) :: Bytes.ofUInt16 owner ++ Bytes.ofUInt16 nameAndType
  | .plain tag payload => tag :: payload

-- The number of slots that a constant takes: two for numbers of eight bytes.
def width : Constant → Nat
  | .plain tag _ => if tag = 5 ∨ tag = 6 then 2 else 1
  | _ => 1

def plainSizes : List (UInt8 × Nat) :=
  [(3, 4), (4, 4), (5, 8), (6, 8), (8, 2), (9, 4), (12, 4), (15, 3), (16, 2), (17, 4), (18, 4),
    (19, 2), (20, 2)]

def WellFormed : Constant → Prop
  | .utf8 text => text.length < 0x10000
  | .plain tag payload => plainSizes.lookup tag = some payload.length
  | _ => True

end Constant

def tableBytes {α : Type} (entryBytes : α → List UInt8) (entries : List α) : List UInt8 :=
  Bytes.toBigEndian 2 entries.length ++ entries.flatMap entryBytes

structure Attribute where
  name : UInt16
  body : List UInt8
  deriving DecidableEq, Repr

namespace Attribute

def bytes (info : Attribute) : List UInt8 :=
  Bytes.ofUInt16 info.name ++ Bytes.toBigEndian 4 info.body.length ++ info.body

def WellFormed (info : Attribute) : Prop := info.body.length < 0x100000000

end Attribute

structure CodeBody where
  limits : UInt32
  code : List UInt8
  -- Tables about the code.
  tail : List UInt8
  deriving DecidableEq, Repr

def CodeBody.bytes (body : CodeBody) : List UInt8 :=
  Bytes.ofUInt32 body.limits ++ Bytes.toBigEndian 4 body.code.length ++ body.code ++
    body.tail

structure ClassMember where
  flags : UInt16
  name : UInt16
  descriptor : UInt16
  attributes : List Attribute
  deriving DecidableEq, Repr

namespace ClassMember

def bytes (member : ClassMember) : List UInt8 :=
  Bytes.ofUInt16 member.flags ++ Bytes.ofUInt16 member.name ++
    Bytes.ofUInt16 member.descriptor ++ tableBytes Attribute.bytes member.attributes

def WellFormed (member : ClassMember) : Prop :=
  member.attributes.length < 0x10000 ∧ ∀ info ∈ member.attributes, info.WellFormed

end ClassMember

structure ClassFile where
  version : UInt32
  -- The number of slots of the pool that the file declares, slot zero included.
  declared : UInt16
  constants : List Constant
  flags : UInt16
  thisClass : UInt16
  superClass : UInt16
  interfaces : List UInt16
  fields : List ClassMember
  methods : List ClassMember
  attributes : List Attribute
  deriving DecidableEq, Repr

namespace ClassFile

def bytes (file : ClassFile) : List UInt8 :=
  [0xCA, 0xFE, 0xBA, 0xBE] ++ Bytes.ofUInt32 file.version ++
    Bytes.ofUInt16 file.declared ++ file.constants.flatMap Constant.bytes ++
    Bytes.ofUInt16 file.flags ++ Bytes.ofUInt16 file.thisClass ++
    Bytes.ofUInt16 file.superClass ++ tableBytes Bytes.ofUInt16 file.interfaces ++
    tableBytes ClassMember.bytes file.fields ++ tableBytes ClassMember.bytes file.methods ++
    tableBytes Attribute.bytes file.attributes

def slotCount (constants : List Constant) : Nat :=
  constants.foldr (fun constant count => constant.width + count) 0

-- Constants fill the slots up to the declared number, from slot one on. There is none that starts
-- after it, but a wide one may start in the last slot.
def Fills (declared : Nat) (constants : List Constant) : Prop :=
  declared ≤ 1 + slotCount constants ∧
    (constants ≠ [] → 1 + slotCount constants.dropLast < declared)

-- The sizes of all parts can be written.
def WellFormed (file : ClassFile) : Prop :=
  (∀ constant ∈ file.constants, constant.WellFormed) ∧
    Fills file.declared.toNat file.constants ∧
    file.interfaces.length < 0x10000 ∧
    file.fields.length < 0x10000 ∧ (∀ member ∈ file.fields, member.WellFormed) ∧
    file.methods.length < 0x10000 ∧ (∀ member ∈ file.methods, member.WellFormed) ∧
    file.attributes.length < 0x10000 ∧ ∀ info ∈ file.attributes, info.WellFormed

end ClassFile

end CallCensus
