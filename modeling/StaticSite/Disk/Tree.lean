namespace StaticSite

inductive FileTree
  | file (content : ByteArray)
  | dir (entries : List (String × FileTree))

namespace FileTree

def empty : FileTree := .dir []

def isDir : FileTree → Bool
  | .file _ => false
  | .dir _ => true

def isFile (t : FileTree) : Bool := !t.isDir

def get? : FileTree → List String → Option FileTree
  | t, [] => some t
  | .file _, _ :: _ => none
  | .dir entries, name :: names => (entries.lookup name).bind fun t => t.get? names

theorem get?_append (t : FileTree) (p q : List String) :
    t.get? (p ++ q) = (t.get? p).bind fun u => u.get? q := by
  induction p generalizing t with
  | nil => simp [get?]
  | cons name names ih =>
    cases t with
    | file content => simp [get?]
    | dir entries => cases h : entries.lookup name <;> simp [get?, h, ih]

def changeEntry (name : String) (change : Option FileTree → FileTree) :
    List (String × FileTree) → List (String × FileTree)
  | [] => [(name, change none)]
  | (n, t) :: rest =>
    if n = name then (n, change (some t)) :: rest else (n, t) :: changeEntry name change rest

/-- Puts a tree at the end of a way down. Directories that are missing on the way are made; below a
file nothing changes. -/
def put : FileTree → List String → FileTree → FileTree
  | _, [], new => new
  | .file content, _ :: _, _ => .file content
  | .dir entries, name :: names, new =>
    .dir (changeEntry name (fun old => put (old.getD empty) names new) entries)

def erase : FileTree → List String → FileTree
  | t, [] => t
  | .file content, _ :: _ => .file content
  | .dir entries, [name] => .dir (entries.filter fun e => e.1 ≠ name)
  | .dir entries, name :: next :: names =>
    .dir (entries.map fun e => if e.1 = name then (e.1, erase e.2 (next :: names)) else e)

def nameLe (a b : String) : Bool := !(b < a)

mutual

def files : FileTree → List (List String × ByteArray)
  | .file content => [([], content)]
  | .dir entries =>
    ((entryFiles entries).mergeSort fun a b => nameLe a.1 b.1).flatMap fun e =>
      e.2.map fun f => (e.1 :: f.1, f.2)

def entryFiles : List (String × FileTree) → List (String × List (List String × ByteArray))
  | [] => []
  | (name, t) :: rest => (name, files t) :: entryFiles rest

end

end FileTree

end StaticSite
