import CallCensus.Archive.Zip
import CallCensus.Census.Survey
import CallCensus.Text.Split

namespace CallCensus

inductive FileNode where
  | file (bytes : List UInt8)
  | directory
  deriving DecidableEq, Repr

-- The files and directories by their names from the first directory, which is always there.
structure FileTree where
  nodes : List (List String × FileNode)
  deriving DecidableEq, Repr

inductive Obstacle where
  | notFound
  | notDirectory
  | isDirectory
  -- The path, or a name in it, is longer than any can be.
  | nameTooLong
  | zeroInName
  deriving DecidableEq, Repr

def Obstacle.message : Obstacle → String
  | .notFound => "No such file or directory (os error 2)"
  | .notDirectory => "Not a directory (os error 20)"
  | .isDirectory => "Is a directory (os error 21)"
  | .nameTooLong => "File name too long (os error 36)"
  | .zeroInName => "file name contained an unexpected NUL byte"

namespace FileTree

def empty : FileTree := ⟨[]⟩

def node? (tree : FileTree) (place : List String) : Option FileNode :=
  if place = [] then some .directory else tree.nodes.lookup place

def put (tree : FileTree) (place : List String) (node : FileNode) : FileTree :=
  ⟨(place, node) :: tree.nodes.filter (·.1 ≠ place)⟩

def withParents (tree : FileTree) (place : List String) : FileTree :=
  (List.range place.length).foldl
    (fun tree count =>
      if (tree.node? (place.take count)).isNone then tree.put (place.take count) .directory
      else tree)
    tree

def namesOf (path : String) : List String := (Split.on '/' path.toList).map String.ofList

def startOf (path : String) : List String := if path.toList.head? = some '/' then ["/"] else []

-- The longest paths and names, in bytes.
def maxPathLength : Nat := 4095

def maxNameLength : Nat := 255

def checkPath (path : String) : Except Obstacle Unit :=
  if '\x00' ∈ path.toList then .error .zeroInName
  else if path = "" then .error .notFound
  else if maxPathLength < path.utf8ByteSize then .error .nameTooLong
  else .ok ()

def within (place : List String) (name : String) : Except Obstacle (List String) :=
  if maxNameLength < name.utf8ByteSize then .error .nameTooLong else .ok (place ++ [name])

def enter (tree : FileTree) (place : List String) : Except Obstacle Unit :=
  match tree.node? place with
  | some .directory => .ok ()
  | some (.file _) => .error .notDirectory
  | none => .error .notFound

-- The place that these names lead to. All places on the way have to be directories.
def follow (tree : FileTree) (place : List String) : List String → Except Obstacle (List String)
  | [] => .ok place
  | name :: rest => do
    tree.enter place
    if name = "" ∨ name = "." then follow tree place rest
    else if name = ".." then follow tree place.dropLast rest
    else do follow tree (← within place name) rest

def find (tree : FileTree) (path : String) : Except Obstacle FileNode := do
  checkPath path
  match tree.node? (← tree.follow (startOf path) (namesOf path)) with
  | some node => .ok node
  | none => .error .notFound

def trimmed (names : List String) : List String :=
  (names.reverse.dropWhile (· = "")).reverse

-- The place of the file that a path is for. Its directory has to be there. A slash at the end asks
-- for a directory.
def placeFor (tree : FileTree) (path : String) : Except Obstacle (List String) := do
  checkPath path
  let names := namesOf path
  let parent ← tree.follow (startOf path) (trimmed names).dropLast
  tree.enter parent
  match names.getLast? with
  | none | some "" | some "." | some ".." => .error .isDirectory
  | some name =>
    let place ← within parent name
    if tree.node? place = some .directory then .error .isDirectory else .ok place

def add (tree : FileTree) (path : String) (node : FileNode) : FileTree :=
  let place := (namesOf path).filter (· ≠ "")
  (tree.withParents place).put place node

section Archives

variable {Error : Type} (unpacker : Archive.Unpacker Error)

def listNode (path : String) : FileNode → Listing Failure (List UInt8)
  | .directory => ⟨[], .error (.unreadableArchive path Obstacle.isDirectory.message)⟩
  | .file bytes =>
    (unpacker.list bytes.toArray).mapError fun error =>
      .unreadableArchive path (unpacker.message error)

def sourceBy (tree : FileTree) : Source (List UInt8) where
  present path := (tree.find path).isOk
  list path :=
    match tree.find path with
    | .ok node => listNode unpacker path node
    | .error .notFound => ⟨[], .error (.missingArchive path)⟩
    | .error obstacle => ⟨[], .error (.unreadableArchive path obstacle.message)⟩

end Archives

def source (tree : FileTree) : Source (List UInt8) := tree.sourceBy Archive.zip

end FileTree

end CallCensus
