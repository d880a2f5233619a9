import CallCensus.ClassFile.Bytecode
import CallCensus.ClassFile.ConstantPool
import CallCensus.ClassName

namespace CallCensus

-- The name of a class, and the owner of the method at each of its call sites.
structure DecodedClass where
  name : String
  references : List String
  deriving Repr, DecidableEq

namespace DecodedClass

def magic : UInt32 := 0xCAFEBABE

def skipAttribute : Read Unit := do
  Read.skip 2
  let _ ← Read.sized

def skipAttributes : Read Unit := do
  let _ ← Read.table skipAttribute

-- The instructions in the body of a `Code` attribute, in front of which stand two limits.
def code : Read (List UInt8) := do
  Read.skip 4
  Read.sized

def owners (pool : ConstantPool) (body : List UInt8) : Except DecodeError (List String) := do
  let indices ← Bytecode.invocations (← code.all body)
  indices.mapM fun index => return ClassName.sourceForm (← pool.methodOwner index)

def readMethodAttribute (pool : ConstantPool) : Read (List String) := do
  let name ← Read.u16
  let body ← Read.sized
  if (← Read.ofExcept (pool.text name)) = "Code" then Read.ofExcept (owners pool body)
  else return []

def readMethod (pool : ConstantPool) : Read (List String) := do
  Read.skip 6
  return (← Read.table (readMethodAttribute pool)).flatten

def readField : Read Unit := do
  Read.skip 6
  skipAttributes

def readMark : Read Unit := do
  let mark ← Read.u32
  if mark = magic then return else throw (.badMagic mark)

-- The name of the class, which stands between the access flags and the class it extends.
def readName (pool : ConstantPool) : Read String := do
  Read.skip 2
  let name ← Read.ofExcept (pool.className (← Read.u16))
  Read.skip 2
  return ClassName.sourceForm name

def skipInterfaces : Read Unit := do
  Read.skip ((← Read.u16).toNat * 2)

def read : Read DecodedClass := do
  readMark
  Read.skip 4
  let pool ← ConstantPool.read
  let name ← readName pool
  skipInterfaces
  let _ ← Read.table readField
  let references ← Read.table (readMethod pool)
  skipAttributes
  return ⟨name, references.flatten⟩

-- The class in a class file, which ends with its last attribute.
def ofBytes (bytes : List UInt8) : Except DecodeError DecodedClass :=
  match read.startingAt (Cursor.ofBytes bytes) with
  | (.error error, _) => .error error
  | (.ok decoded, cursor) =>
    if cursor.rest = [] then .ok decoded
    else .error (.trailingBytes cursor.position cursor.remaining)

end DecodedClass

end CallCensus
