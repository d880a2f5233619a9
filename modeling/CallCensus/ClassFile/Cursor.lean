import CallCensus.Bytes
import CallCensus.ClassFile.DecodeError

namespace CallCensus

-- A place in a byte string: how many bytes were taken, and those that are left.
structure Cursor where
  position : Nat
  rest : List UInt8
  deriving Repr, DecidableEq

namespace Cursor

def ofBytes (bytes : List UInt8) : Cursor := ⟨0, bytes⟩

def remaining (cursor : Cursor) : Nat := cursor.rest.length

end Cursor

-- A read moves the cursor whether it succeeds or not.
abbrev Read := ExceptT DecodeError (StateM Cursor)

namespace Read

def bytes (count : Nat) : Read (List UInt8) := ExceptT.mk fun cursor =>
  match Bytes.cut count cursor.rest with
  | .error missing => (.error (.truncated cursor.position missing), cursor)
  | .ok (front, rest) => (.ok front, ⟨cursor.position + count, rest⟩)

def skip (count : Nat) : Read Unit := do
  let _ ← bytes count

def u8 : Read UInt8 := do
  return (Bytes.bigEndian (← bytes 1)).toUInt8

def u16 : Read UInt16 := do
  return (Bytes.bigEndian (← bytes 2)).toUInt16

def u32 : Read UInt32 := do
  return (Bytes.bigEndian (← bytes 4)).toUInt32

-- As many bytes as the four bytes in front of them say.
def sized : Read (List UInt8) := do
  bytes (← u32).toNat

def times {α : Type} : Nat → Read α → Read (List α)
  | 0, _ => pure []
  | count + 1, read => do
    let first ← read
    return first :: (← times count read)

-- A table: the number of its entries, and then the entries.
def table {α : Type} (entry : Read α) : Read (List α) := do
  times (← u16).toNat entry

def ofExcept {α : Type} (result : Except DecodeError α) : Read α := ExceptT.mk (pure result)

def startingAt {α : Type} (read : Read α) (cursor : Cursor) : Except DecodeError α × Cursor :=
  (read.run cursor).run

def all {α : Type} (read : Read α) (data : List UInt8) : Except DecodeError α :=
  (read.startingAt (Cursor.ofBytes data)).1

end Read

inductive ReadStep where
  | u8
  | u16
  | u32
  | sized
  | bytes (count : Nat)
  | skip (count : Nat)
  deriving Repr, DecidableEq

namespace ReadStep

inductive Value where
  | number (value : Nat)
  | bytes (value : List UInt8)
  | nothing
  deriving Repr, DecidableEq

def read : ReadStep → Read Value
  | .u8 => return .number (← Read.u8).toNat
  | .u16 => return .number (← Read.u16).toNat
  | .u32 => return .number (← Read.u32).toNat
  | .sized => return .bytes (← Read.sized)
  | .bytes count => return .bytes (← Read.bytes count)
  | .skip count => do
    Read.skip count
    return .nothing

-- What each of the steps answers and where it leaves the cursor. A step that fails does not keep
-- the steps after it from being taken.
def trace : List ReadStep → Cursor → List (Except DecodeError Value × Cursor)
  | [], _ => []
  | step :: steps, cursor =>
    let taken := step.read.startingAt cursor
    taken :: trace steps taken.2

end ReadStep

end CallCensus
