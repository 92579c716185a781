import InodeVolume.Device.HostFile

/-!
A tree of files and directories, and the paths that lead through it. The tree has its working
directory below the top under an empty name, which no path can spell.
-/
namespace InodeVolume

namespace Packer

/-- Why the host refuses a path. -/
inductive HostError where
  | notFound
  | notADirectory
  | isADirectory
  | nameTooLong
  deriving DecidableEq

def HostError.label : HostError → String
  | notFound => "NotFound"
  | notADirectory => "NotADirectory"
  | isADirectory => "IsADirectory"
  | nameTooLong => "InvalidFilename"

/-- The most bytes that a name in a directory can have. -/
def longestName : Nat := 255

/-- The most bytes that a path can have. -/
def longestPath : Nat := 4095

inductive HostNode where
  | file (content : HostFile)
  | directory (entries : List (String × HostNode))

/-- The place of a node: the names that lead to it from the top. -/
abbrev Place := List String

namespace HostNode

def at? : HostNode → Place → Option HostNode
  | node, [] => some node
  | .file _, _ :: _ => none
  | .directory entries, name :: rest =>
    match entries.lookup name with
    | none => none
    | some node => node.at? rest

/-- Replaces the entry of a name, or adds one in front: a directory lists its newest entry first. -/
def setEntry (entries : List (String × HostNode)) (name : String) (node : HostNode) :
    List (String × HostNode) :=
  match entries.lookup name with
  | none => (name, node) :: entries
  | some _ => entries.map fun e => if e.1 = name then (name, node) else e

/-- Puts a node at a place, with the directories that lead there. -/
def put : HostNode → Place → HostNode → HostNode
  | _, [], node => node
  | .file content, _ :: _, _ => .file content
  | .directory entries, name :: rest, node =>
    let old := (entries.lookup name).getD (.directory [])
    .directory (setEntry entries name (old.put rest node))

/-- Makes a directory unless there is a node already. -/
def addDirectory (root : HostNode) (place : Place) : HostNode :=
  match root.at? place with
  | some _ => root
  | none => root.put place (.directory [])

/-- The working directory. -/
def workingPlace : Place := [""]

/-- Follows the names of a path from a place on. -/
def follow (root : HostNode) (place : Place) : List String → Except HostError Place
  | [] => .ok place
  | name :: rest =>
    match root.at? place with
    | none => .error .notFound
    | some (.file _) => .error .notADirectory
    | some (.directory entries) =>
      if name = "" ∨ name = "." then follow root place rest
      else if name = ".." then follow root place.dropLast rest
      else if longestName < name.utf8ByteSize then .error .nameTooLong
      else match entries.lookup name with
        | none => .error .notFound
        | some _ => follow root (place ++ [name]) rest

/-- Refuses a path that is too long to be looked up. -/
def checkPath (path : String) : Except HostError Unit :=
  if longestPath < path.utf8ByteSize then .error .nameTooLong else .ok ()

/-- The place where a path starts, and its names. -/
def splitPath (path : String) : Place × List String :=
  match path.splitOn "/" with
  | "" :: rest => ([], rest)
  | names => (workingPlace, names)

/-- The path of an entry of the directory that a path leads to. -/
def entryPath (path name : String) : String :=
  if path.endsWith "/" then path ++ name else path ++ "/" ++ name

/-- The entries of the directory that a path leads to, with the place of that directory. -/
def listing (root : HostNode) (path : String) :
    Except HostError (Place × List (String × HostNode)) := do
  checkPath path
  let (start, names) := splitPath path
  let place ← root.follow start names
  match root.at? place with
  | some (.directory entries) => return (place, entries)
  | some (.file _) => .error .notADirectory
  | none => .error .notFound

/-- The place of the file that a path names for writing, there already or not. -/
def writable (root : HostNode) (path : String) : Except HostError Place := do
  checkPath path
  let (start, names) := splitPath path
  let trimmed := (names.reverse.dropWhile (· == "")).reverse
  match trimmed.getLast? with
  | none => .error .isADirectory
  | some last =>
    let parent ← root.follow start trimmed.dropLast
    match root.at? parent with
    | some (.directory entries) =>
      if last = "." ∨ last = ".." ∨ trimmed.length < names.length then .error .isADirectory
      else if longestName < last.utf8ByteSize then .error .nameTooLong
      else match entries.lookup last with
        | some (.directory _) => .error .isADirectory
        | _ => return parent ++ [last]
    | some (.file _) => .error .notADirectory
    | none => .error .notFound

end HostNode

end Packer

end InodeVolume
