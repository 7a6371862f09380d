import StaticSite.Toml.Item
import StaticSite.Toml.Version

namespace StaticSite.Toml

/-- How a table came to be: under a header of its own, as the parent of one, or by a dotted key. -/
inductive Origin
  | header
  | implied
  | dotted
  deriving DecidableEq

inductive Entry
  | value (v : Item)
  | table (origin : Origin) (members : List (String × Entry))
  | tables (rows : List (List (String × Entry)))

structure Table where
  origin : Origin := .header
  members : List (String × Entry) := []

mutual

def Entry.item : Entry → Item
  | .value v => v
  | .table _ members => .table (memberItems members)
  | .tables rows => .array (rowItems rows)

def memberItems : List (String × Entry) → List (String × Item)
  | [] => []
  | (k, e) :: es => (k, e.item) :: memberItems es

def rowItems : List (List (String × Entry)) → List Item
  | [] => []
  | r :: rs => .table (memberItems r) :: rowItems rs

end

namespace Table

def has (key : String) (t : Table) : Bool := t.members.any fun m => m.1 = key

def set (key : String) (e : Entry) (t : Table) : Table :=
  if t.has key then
    { t with members := t.members.map fun m => if m.1 = key then (key, e) else m }
  else { t with members := t.members ++ [(key, e)] }

def remove (key : String) (t : Table) : Table :=
  { t with members := t.members.filter fun m => m.1 ≠ key }

/-- Applies `f` to the table that a path leads to, tables on the way being made as needed; in an
array of tables the way leads through its last row. A dotted key must not lead into a table with a
header of its own. -/
def within (dotted : Bool) (f : Table → Option Table) : List String → Table → Option Table
  | [], t => f t
  | key :: path, t =>
    match t.members.lookup key with
    | none => do
      let inner ← within dotted f path { origin := if dotted then .dotted else .implied }
      return t.set key (.table inner.origin inner.members)
    | some (.value _) => none
    | some (.tables rows) => do
      let inner ← within dotted f path { members := ← rows.getLast? }
      return t.set key (.tables (rows.dropLast ++ [inner.members]))
    | some (.table origin members) =>
      if dotted && origin = .header then none
      else do
        let inner ← within dotted f path { origin, members }
        return t.set key (.table inner.origin inner.members)

/-- Whether dotted keys may add to a table: to one that they made, and in the later version to one
that is there only as the parent of another. -/
def takesDotted (v : Version) (t : Table) : Bool :=
  t.origin = .dotted || (v = .toml11 && t.origin = .implied)

def define (v : Version) (dotted : Bool) (key : String) (i : Item) (t : Table) : Option Table :=
  if t.has key then none
  else if !dotted then some (t.set key (.value i))
  else if t.takesDotted v then some { t.set key (.value i) with origin := .dotted }
  else none

def defineAt (v : Version) (path : List String) (i : Item) (t : Table) : Option Table :=
  match path.getLast? with
  | none => none
  | some key => t.within true (define v (path.length > 1) key i) path.dropLast

end Table

structure Draft where
  root : Table := {}
  current : Table := {}
  path : List String := []
  row : Bool := false

namespace Draft

def settle (d : Draft) : Option Table :=
  match d.path.getLast? with
  | none => some d.current
  | some key =>
    let place (parent : Table) : Option Table :=
      if d.row then
        match parent.members.lookup key with
        | none => some (parent.set key (.tables [d.current.members]))
        | some (.tables rows) => some (parent.set key (.tables (rows ++ [d.current.members])))
        | _ => none
      else if parent.has key then none
      else some (parent.set key (.table .header d.current.members))
    d.root.within false place d.path.dropLast

/-- The members that a table under a new header starts with: those of a table that was only
implied so far, which leaves its place until the new one is complete. -/
def reopened (key : String) (parent : Table) : Option (List (String × Entry)) :=
  match parent.members.lookup key with
  | none => some []
  | some (.table .implied members) => some members
  | _ => none

def take (path : List String) (root : Table) : Option (List (String × Entry) × Table) :=
  match path.getLast? with
  | none => none
  | some key => do
    let found ← match lookupParent path.dropLast root with
      | some parent => reopened key parent
      | none => some []
    let root ← root.within false (fun parent => some (parent.remove key)) path.dropLast
    return (found, root)
where
  lookupParent : List String → Table → Option Table
    | [], t => some t
    | key :: path, t =>
      match t.members.lookup key with
      | some (.table origin members) => lookupParent path { origin, members }
      | some (.tables rows) => rows.getLast?.bind fun members => lookupParent path { members }
      | _ => none

def startTable (path : List String) (d : Draft) : Option Draft := do
  let root ← d.settle
  let (members, root) ← take path root
  return { root, current := { members }, path, row := false }

def startRow (path : List String) (d : Draft) : Option Draft := do
  let root ← d.settle
  let key ← path.getLast?
  let reserve (parent : Table) : Option Table :=
    match parent.members.lookup key with
    | none => some (parent.set key (.tables []))
    | some (.tables _) => some parent
    | _ => none
  let root ← root.within false reserve path.dropLast
  return { root, current := {}, path, row := true }

def define (v : Version) (path : List String) (i : Item) (d : Draft) : Option Draft := do
  return { d with current := ← d.current.defineAt v path i }

end Draft

end StaticSite.Toml
