import CallCensus.Archive.Deflate
import CallCensus.Archive.Directory
import CallCensus.Archive.Listing

namespace CallCensus

namespace Checksum

-- Divides by the polynomial of CRC-32, one bit at a time.
def shift (state : UInt32) : UInt32 :=
  if state &&& 1 = 1 then (state >>> 1) ^^^ 0xEDB88320 else state >>> 1

def step (state : UInt32) (byte : UInt8) : UInt32 := Nat.repeat shift 8 (state ^^^ byte.toUInt32)

def ofBytes (bytes : List UInt8) : UInt32 := bytes.foldl step 0xFFFFFFFF ^^^ 0xFFFFFFFF

end Checksum

namespace Archive

inductive Fault where
  | noDirectory
  | encrypted
  | noMember
  | unknownMethod
  | corruptData
  | wrongChecksum
  deriving DecidableEq, Repr

def Fault.message : Fault → String
  | .noDirectory => "invalid Zip archive: Could not find EOCD"
  | .encrypted => "unsupported Zip archive: Password required to decrypt file"
  | .noMember => "invalid Zip archive: Invalid local file header"
  | .unknownMethod => "unsupported Zip archive: Compression method not supported"
  | .corruptData => "corrupt deflate stream"
  | .wrongChecksum => "Invalid checksum"

def isDirectory (name : String) : Bool :=
  name.toList.getLast?.any fun char => char = '/' || char = '\\'

def isKnownMethod (method : Nat) : Bool := method = 0 || method = 8

def Member.locate (file : Array UInt8) (member : Member) : Except Fault Nat :=
  if member.encrypted then .error .encrypted
  else
    match member.start? file with
    | none => .error .noMember
    | some start => if isKnownMethod member.method then .ok start else .error .unknownMethod

-- The contents of a member whose bytes start at an offset. Their number is what the directory
-- says, or as many as there are, and the checksum has to be right.
def Member.contents (file : Array UInt8) (start : Nat) (member : Member) :
    Except Fault (List UInt8) :=
  let stored := slice file start member.size
  match if member.method = 0 then some stored else Deflate.inflate? stored with
  | none => .error .corruptData
  | some bytes =>
    if (Checksum.ofBytes bytes).toNat = member.checksum then .ok bytes else .error .wrongChecksum

def Member.opened (file : Array UInt8) (member : Member) : Opening Fault :=
  (member.locate file).map fun start =>
    ⟨member.name, isDirectory member.name, fun _ => member.contents file start⟩

-- Archives as they are found by their central directory, within its numbers of 16 and 32 bits.
def zip : Unpacker Fault where
  members file :=
    match members? file with
    | none => .error .noDirectory
    | some members => .ok (members.map (Member.opened file))
  message := Fault.message

end Archive

end CallCensus
