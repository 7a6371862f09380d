import StaticSite.Disk.Error
import StaticSite.Disk.Tree
import StaticSite.Path.Normal

namespace StaticSite

/-- All files, and the directory at which relative paths start. That directory is taken to stay:
once it is removed no relative path leads anywhere, not even upwards, where a system that still
holds the removed directory would go on. -/
structure Disk where
  files : FileTree := .empty
  cwd : Place := []

namespace Disk

def nameLimit : Nat := 255

def entries (d : Disk) (place : Place) : Except DiskError (List (String × FileTree)) :=
  match d.files.get? place with
  | none => .error .notFound
  | some (.file _) => .error .notDirectory
  | some (.dir entries) => .ok entries

/-- One segment of a path further, from a directory that must be there. What the segment names need
not be there. -/
def enter (d : Disk) (place : Place) (segment : String) : Except DiskError Place := do
  let _ ← d.entries place
  if segment.utf8ByteSize > nameLimit then throw .nameTooLong
  return match Component.ofSegment? segment with
    | some c => place.step c
    | none => place

def start (d : Disk) (p : Path) : Except DiskError Place :=
  if p.isEmpty then .error .notFound
  else if p.segments.any fun s => s.toList.contains '\x00' then .error .nulInName
  else .ok (if p.isAbsolute then [] else d.cwd)

/-- The place of a path, followed step by step; only what it ends in may be missing. -/
def find (d : Disk) (p : Path) : Except DiskError Place := do
  p.segments.foldlM d.enter (← d.start p)

def stat (d : Disk) (p : Path) : Except DiskError FileTree := do
  match d.files.get? (← d.find p) with
  | some t => return t
  | none => throw .notFound

def stat? (d : Disk) (p : Path) : Option FileTree := (d.stat p).toOption

def contains (d : Disk) (p : Path) : Bool := (d.stat? p).isSome

def isDir (d : Disk) (p : Path) : Bool := (d.stat? p).any FileTree.isDir

def isFile (d : Disk) (p : Path) : Bool := (d.stat? p).any FileTree.isFile

def textOf (content : ByteArray) : Except DiskError String :=
  match String.fromUTF8? content with
  | some s => .ok s
  | none => .error .notText

def read (d : Disk) (p : Path) : Except DiskError ByteArray := do
  match ← d.stat p with
  | .file content => return content
  | .dir _ => throw .isDirectory

def readText (d : Disk) (p : Path) : Except DiskError String := d.read p >>= textOf

def filesBelow (d : Disk) (p : Path) : List (List String × ByteArray) :=
  match d.stat? p with
  | some (.dir entries) => (FileTree.dir entries).files
  | _ => []

def select (d : Disk) (dir : Path) (keep : Path → Bool) : List (Path × ByteArray) :=
  ((d.filesBelow dir).map fun f => (Path.ofNames f.1, f.2)).filter fun f => keep f.1

/-- The directory in which the last segment of a path is looked up, and that segment; slashes at the
end do not count. -/
def parent (d : Disk) (p : Path) : Except DiskError (Place × String) := do
  let start ← d.start p
  match p.segments.reverse.dropWhile (· = "") with
  | [] => return (start, "")
  | last :: rest =>
    let place ← rest.reverse.foldlM d.enter start
    let _ ← d.enter place last
    return (place, last)

def makeDir (d : Disk) (p : Path) : Except DiskError Disk := do
  let (place, last) ← d.parent p
  match Component.ofSegment? last with
  | some (.name s) =>
    if (d.files.get? (place ++ [s])).isSome then throw .occupied
    return { d with files := d.files.put (place ++ [s]) .empty }
  | _ => throw .occupied

/-- Takes away an empty directory, which a path that ends in dots does not name. -/
def removeDir (d : Disk) (p : Path) : Except DiskError Disk := do
  let (place, last) ← d.parent p
  match Component.ofSegment? last with
  | some (.name s) =>
    match ← d.entries (place ++ [s]) with
    | [] => return { d with files := d.files.erase (place ++ [s]) }
    | _ :: _ => throw .notEmpty
  | some _ => throw .notEmpty
  | none => throw .invalid

def write (d : Disk) (p : Path) (content : ByteArray) : Except DiskError Disk := do
  let place ← d.find p
  match d.files.get? place with
  | some (.dir _) => throw .isDirectory
  | _ => return { d with files := d.files.put place (.file content) }

end Disk

end StaticSite
