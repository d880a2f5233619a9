import CallCensus.Bytes
import CallCensus.Text.Utf8

namespace CallCensus.CodePage437

def upperHalf : Array Char :=
  ("\u00C7\u00FC\u00E9\u00E2\u00E4\u00E0\u00E5\u00E7\u00EA\u00EB\u00E8\u00EF\u00EE\u00EC\u00C4" ++
    "\u00C5\u00C9\u00E6\u00C6\u00F4\u00F6\u00F2\u00FB\u00F9\u00FF\u00D6\u00DC\u00A2\u00A3\u00A5" ++
    "\u20A7\u0192\u00E1\u00ED\u00F3\u00FA\u00F1\u00D1\u00AA\u00BA\u00BF\u2310\u00AC\u00BD\u00BC" ++
    "\u00A1\u00AB\u00BB\u2591\u2592\u2593\u2502\u2524\u2561\u2562\u2556\u2555\u2563\u2551\u2557" ++
    "\u255D\u255C\u255B\u2510\u2514\u2534\u252C\u251C\u2500\u253C\u255E\u255F\u255A\u2554\u2569" ++
    "\u2566\u2560\u2550\u256C\u2567\u2568\u2564\u2565\u2559\u2558\u2552\u2553\u256B\u256A\u2518" ++
    "\u250C\u2588\u2584\u258C\u2590\u2580\u03B1\u00DF\u0393\u03C0\u03A3\u03C3\u00B5\u03C4\u03A6" ++
    "\u0398\u03A9\u03B4\u221E\u03C6\u03B5\u2229\u2261\u00B1\u2265\u2264\u2320\u2321\u00F7\u2248" ++
    "\u00B0\u2219\u00B7\u221A\u207F\u00B2\u25A0\u00A0").toList.toArray

def ofByte (byte : UInt8) : Char :=
  if byte < 0x80 then Char.ofNat byte.toNat else upperHalf.getD (byte.toNat - 0x80) ' '

def decode (bytes : List UInt8) : List Char := bytes.map ofByte

end CallCensus.CodePage437

namespace CallCensus.Archive

-- The bytes of a file from an offset on, fewer than wanted if the file ends before.
def slice (file : Array UInt8) (offset length : Nat) : List UInt8 :=
  (file.extract offset (offset + length)).toList

def field (file : Array UInt8) (offset width : Nat) : Nat :=
  Bytes.littleEndian (slice file offset width)

def endSignature : List UInt8 := [0x50, 0x4B, 0x05, 0x06]

def entrySignature : List UInt8 := [0x50, 0x4B, 0x01, 0x02]

def memberSignature : List UInt8 := [0x50, 0x4B, 0x03, 0x04]

-- The sizes of the three kinds of records, up to their first field without a fixed size.
def endSize : Nat := 22

def entrySize : Nat := 46

def memberSize : Nat := 30

structure EndRecord where
  -- The part of an archive of several parts that this is, and the part that has the directory.
  part : Nat
  directoryPart : Nat
  -- The number of entries in this part, and in all parts.
  entries : Nat
  allEntries : Nat
  -- Where the directory starts, from the start of the archive.
  directory : Nat
  deriving DecidableEq, Repr

-- The record at an offset, with the comment after it, if both are within the file.
def EndRecord.at? (file : Array UInt8) (offset : Nat) : Option EndRecord :=
  if slice file offset 4 = endSignature ∧
      offset + endSize + field file (offset + 20) 2 ≤ file.size then
    some ⟨field file (offset + 4) 2, field file (offset + 6) 2, field file (offset + 8) 2,
      field file (offset + 10) 2, field file (offset + 16) 4⟩
  else none

def lastSome {α : Type} (f : Nat → Option α) : (bound : Nat) → Option α
  | 0 => none
  | bound + 1 =>
    match f bound with
    | some value => some value
    | none => lastSome f bound

def firstEntry? (file : Array UInt8) (offset : Nat) : (count : Nat) → Option Nat
  | 0 => none
  | count + 1 =>
    if slice file offset 4 = entrySignature then some offset
    else firstEntry? file (offset + 1) count

structure Member where
  name : String
  encrypted : Bool
  method : Nat
  checksum : Nat
  -- The number of bytes that it takes in the archive.
  size : Nat
  -- Where its own record starts in the file, which is in front of its bytes.
  header : Nat
  deriving DecidableEq, Repr

def decodeName (flags : Nat) (bytes : List UInt8) : String :=
  String.ofList (if flags.testBit 11 then Utf8.decodeLossy bytes else CodePage437.decode bytes)

-- The member that the entry at an offset tells of, and the offset after the entry. Members come
-- before the directory. What is at the place of the member is not looked at.
def Member.at? (file : Array UInt8) (archive directory offset : Nat) : Option (Member × Nat) :=
  let nameLength := field file (offset + 28) 2
  let next := offset + entrySize + nameLength + field file (offset + 30) 2 +
    field file (offset + 32) 2
  let header := archive + field file (offset + 42) 4
  if slice file offset 4 = entrySignature ∧ next ≤ file.size ∧ header < directory then
    let flags := field file (offset + 8) 2
    some (⟨decodeName flags (slice file (offset + entrySize) nameLength), flags.testBit 0,
      field file (offset + 10) 2, field file (offset + 16) 4, field file (offset + 20) 4, header⟩,
      next)
  else none

-- Where the bytes of a member start, if it has a record: after its name, which is repeated there,
-- and more data. They may start anywhere, and even where the file has ended.
def Member.start? (file : Array UInt8) (member : Member) : Option Nat :=
  if slice file member.header 4 = memberSignature ∧ member.header + memberSize ≤ file.size then
    some (member.header + memberSize + field file (member.header + 26) 2 +
      field file (member.header + 28) 2)
  else none

def membersFrom? (file : Array UInt8) (archive directory : Nat) :
    (count offset : Nat) → Option (List Member)
  | 0, _ => some []
  | count + 1, offset => do
    let (member, next) ← Member.at? file archive directory offset
    return member :: (← membersFrom? file archive directory count next)

-- Where the directory starts in the file: at the first entry at or after the place that the record
-- at `offset` tells. An empty directory has no first entry, and ends where the record starts.
def directoryStart? (file : Array UInt8) (offset : Nat) (record : EndRecord) : Option Nat :=
  if record.allEntries = 0 then some (max record.directory offset)
  else firstEntry? file record.directory (offset - record.directory)

-- The members of the archive whose end record is at this offset. As far as the directory is from
-- the place that the record tells, the archive is from the start of the file.
def membersBefore? (file : Array UInt8) (offset : Nat) : Option (List Member) := do
  let record ← EndRecord.at? file offset
  let directory ← directoryStart? file offset record
  if record.part = record.directoryPart then
    membersFrom? file (directory - record.directory) directory record.entries directory
  else none

-- Of members with one name the last counts, in the place of the first.
def insertMember (member : Member) : List Member → List Member
  | [] => [member]
  | other :: rest =>
    if other.name = member.name then member :: rest else other :: insertMember member rest

-- The members of an archive in the order of its directory. Of several end records the last one
-- with a directory counts.
def members? (file : Array UInt8) : Option (List Member) :=
  (lastSome (membersBefore? file) file.size).map fun members =>
    members.foldl (fun known member => insertMember member known) []

end CallCensus.Archive
