import CallCensus.Archive.Zip

namespace CallCensus.Archive

structure Stored.File where
  name : String
  bytes : List UInt8
  deriving DecidableEq, Repr

-- A member that is stored as it is, with all that a writer may say of it.
structure Layout extends Stored.File where
  -- Where it starts.
  offset : Nat
  -- Whether its name is said to be in UTF-8.
  flagged : Bool
  -- What stands between its name and its bytes.
  padding : List UInt8
  -- The versions that it is made by and needed for it, when it was changed, and its attributes.
  madeBy : Nat
  needed : Nat
  time : Nat
  date : Nat
  internal : Nat
  external : Nat

namespace Stored

def flags : Nat := 0x0800

def half (value : Nat) : List UInt8 := Bytes.toLittleEndian 2 value

def word (value : Nat) : List UInt8 := Bytes.toLittleEndian 4 value

def endRecord (count size offset : Nat) (comment : List UInt8) : List UInt8 :=
  endSignature ++ half 0 ++ half 0 ++ half count ++ half count ++ word size ++ word offset ++
    half comment.length ++ comment

end Stored

namespace Layout

open Stored

def flags (layout : Layout) : Nat := if layout.flagged then Stored.flags else 0

def description (layout : Layout) : List UInt8 :=
  half layout.flags ++ half 0 ++ half layout.time ++ half layout.date ++
    word (Checksum.ofBytes layout.bytes).toNat ++ word layout.bytes.length ++
    word layout.bytes.length ++ half (Utf8.encode layout.name).length

def member (layout : Layout) : List UInt8 :=
  memberSignature ++ half layout.needed ++ layout.description ++ half layout.padding.length ++
    Utf8.encode layout.name ++ layout.padding ++ layout.bytes

def entry (layout : Layout) : List UInt8 :=
  entrySignature ++ half layout.madeBy ++ half layout.needed ++ layout.description ++ half 0 ++
    half 0 ++ half 0 ++ half layout.internal ++ word layout.external ++ word layout.offset ++
    Utf8.encode layout.name

end Layout

namespace Stored

def layout (offset : Nat) (file : File) : Layout where
  toFile := file
  offset := offset
  flagged := true
  padding := []
  madeBy := 20
  needed := 20
  time := 0
  date := 0
  internal := 0
  external := 0

-- A member does not say where it is.
def member (file : File) : List UInt8 := (layout 0 file).member

def directory : (offset : Nat) → List File → List UInt8
  | _, [] => []
  | offset, file :: rest =>
    (layout offset file).entry ++ directory (offset + (member file).length) rest

def write (files : List File) (comment : List UInt8) : List UInt8 :=
  let members := files.flatMap member
  let entries := directory 0 files
  members ++ entries ++ endRecord files.length entries.length members.length comment

end Stored

structure Packed extends Layout where
  -- A name in ASCII is the same without the flag.
  legible : flagged = true ∨ name.toList.all fun char => char.toNat < 0x80
  name_fits : (Utf8.encode name).length < 0x10000
  padding_fits : padding.length < 0x10000

-- An archive of members in the order of its directory, within the limits of numbers of 16 and 32 bits.
-- The members may stand in any order and apart from each other.
structure Packing where
  members : List Packed
  -- What stands in front of the directory, with the members in it.
  data : List UInt8
  comment : List UInt8
  distinct : (members.map (·.name)).Nodup
  held : ∀ packed ∈ members, packed.member <+: data.drop packed.offset
  members_fit : members.length < 0xFFFF
  data_fits : data.length < 0xFFFFFFFF
  directory_fits : (members.flatMap (·.entry)).length < 0xFFFFFFFF
  comment_fits : comment.length < 0x10000
  -- No other end record is found behind the start of the right one.
  signature_once : ¬ endSignature <:+: (Stored.endRecord members.length
    (members.flatMap (·.entry)).length data.length comment).tail

namespace Packing

def directory (packing : Packing) : List UInt8 := packing.members.flatMap (·.entry)

def closing (packing : Packing) : List UInt8 :=
  Stored.endRecord packing.members.length packing.directory.length packing.data.length packing.comment

def bytes (packing : Packing) : List UInt8 :=
  packing.data ++ packing.directory ++ packing.closing

end Packing

end CallCensus.Archive
