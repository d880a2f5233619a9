namespace CallCensus

structure ClassEntry (Content : Type) where
  name : String
  content : Content
  deriving DecidableEq, Repr

-- The classes of an archive, or why it cannot be read, and in any case the names of the members
-- that were passed over because they are no classes.
structure Listing (Error Content : Type) where
  passedOver : List String
  entries : Except Error (List (ClassEntry Content))

def Listing.mapError {Error Error' Content : Type} (f : Error → Error')
    (listing : Listing Error Content) : Listing Error' Content :=
  ⟨listing.passedOver, listing.entries.mapError f⟩

namespace Archive

-- A member of an archive, once it is opened. Its bytes are read only where they are asked for.
structure Opened (Error : Type) where
  name : String
  directory : Bool
  read : Unit → Except Error (List UInt8)

abbrev Opening (Error : Type) := Except Error (Opened Error)

-- What opens archives: the members of the archive that a file holds, in the order of their numbers.
structure Unpacker (Error : Type) where
  members : Array UInt8 → Except Error (List (Opening Error))
  message : Error → String

def isClass (name : String) (directory : Bool) : Bool :=
  !directory && ".class".toList.isSuffixOf name.toList

variable {Error : Type}

-- What is found in these members, one after the other, until one of them cannot be read. All of them
-- have to be opened, but the bytes of those that are no classes are not looked at.
def listOpened : List (Opening Error) → Listing Error (List UInt8)
  | [] => ⟨[], .ok []⟩
  | .error error :: _ => ⟨[], .error error⟩
  | .ok opened :: rest =>
    if isClass opened.name opened.directory then
      match opened.read () with
      | .error error => ⟨[], .error error⟩
      | .ok bytes =>
        let listing := listOpened rest
        ⟨listing.passedOver, listing.entries.map (⟨opened.name, bytes⟩ :: ·)⟩
    else
      let listing := listOpened rest
      ⟨opened.name :: listing.passedOver, listing.entries⟩

def Unpacker.list (unpacker : Unpacker Error) (file : Array UInt8) :
    Listing Error (List UInt8) :=
  match unpacker.members file with
  | .error error => ⟨[], .error error⟩
  | .ok members => listOpened members

end Archive

end CallCensus
