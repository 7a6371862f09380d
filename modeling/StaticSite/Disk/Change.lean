import StaticSite.Disk.Tree

namespace StaticSite

inductive FileChange
  | remove (place : List String)
  | makeDir (place : List String)
  | write (place : List String) (content : ByteArray)

namespace FileTree

mutual

def creation (place : List String) : FileTree → List FileChange
  | .file content => [.write place content]
  | .dir entries => .makeDir place :: creations place entries

def creations (place : List String) : List (String × FileTree) → List FileChange
  | [] => []
  | (name, t) :: rest => creation (place ++ [name]) t ++ creations place rest

end

def removals (place : List String) (old new : List (String × FileTree)) : List FileChange :=
  (old.filter fun e => (new.lookup e.1).isNone).map fun e => .remove (place ++ [e.1])

mutual

def changes (place : List String) (old : FileTree) : FileTree → List FileChange
  | .file content =>
    match old with
    | .file before => if before = content then [] else [.write place content]
    | .dir _ => [.remove place, .write place content]
  | .dir entries =>
    match old with
    | .file _ => .remove place :: creation place (.dir entries)
    | .dir before => removals place before entries ++ entryChanges place before entries

def entryChanges (place : List String) (before : List (String × FileTree)) :
    List (String × FileTree) → List FileChange
  | [] => []
  | (name, t) :: rest =>
    (match before.lookup name with
      | some old => changes (place ++ [name]) old t
      | none => creation (place ++ [name]) t) ++ entryChanges place before rest

end

end FileTree

end StaticSite
