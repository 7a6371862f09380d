import StaticSite.Path.Basic

namespace StaticSite

/-- `here` comes only at the start of a path that is not absolute. -/
inductive Component
  | root
  | here
  | up
  | name (s : String)
  deriving DecidableEq

namespace Component

def text : Component → String
  | root => "/"
  | here => "."
  | up => ".."
  | name s => s

def ofSegment? (s : String) : Option Component :=
  if s = "" || s = "." then none else if s = ".." then some up else some (name s)

end Component

namespace Path

def components (p : Path) : List Component :=
  if p.isAbsolute then .root :: p.segments.filterMap Component.ofSegment?
  else
    match p.segments with
    | "." :: rest => .here :: rest.filterMap Component.ofSegment?
    | segments => segments.filterMap Component.ofSegment?

def isMeant (p : Path) (before : List String) (s : String) : Bool :=
  (Component.ofSegment? s).isSome || (!p.isAbsolute && before.isEmpty && s = ".")

def meantReverse (p : Path) : List String → List String
  | [] => []
  | s :: rest => if p.isMeant rest s then s :: rest else p.meantReverse rest

def parent? (p : Path) : Option Path :=
  match p.meantReverse p.segments.reverse with
  | [] => none
  | _ :: rest => some ⟨p.isAbsolute, (p.meantReverse rest).reverse⟩

def fileName? (p : Path) : Option String :=
  match p.components.getLast? with
  | some (.name s) => some s
  | _ => none

end Path

end StaticSite
