import StaticSite.Number.Text
import StaticSite.Number.Literal
import StaticSite.Toml.Item
import StaticSite.Value.Scalar

/-! Settings: loosely typed data that is laid over each other, key by key. -/

namespace StaticSite

inductive Setting
  | nothing
  | bool (b : Bool)
  | integer (n : Int)
  | float (x : Number.Real)
  | text (s : String)
  | list (items : List Setting)
  | table (members : List (String × Setting))

namespace Setting

mutual

def ofItem : Toml.Item → Setting
  | .string s => .text s
  | .integer n _ => .integer n
  | .float x => .float x
  | .boolean b => .bool b
  | .datetime s => .text s
  | .array items => .list (ofItems items)
  | .table members => .table (ofMembers members)

def ofItems : List Toml.Item → List Setting
  | [] => []
  | i :: is => ofItem i :: ofItems is

def ofMembers : List (String × Toml.Item) → List (String × Setting)
  | [] => []
  | (k, i) :: is => (k, ofItem i) :: ofMembers is

end

mutual

def ofValue : Value → Setting
  | .null => .nothing
  | .bool b => .bool b
  | .number (.int n _) => .integer n
  | .number (.float x) => .float (.finite x)
  | .string s => .text s
  | .list items => .list (ofValues items)
  | .map members => .table (ofValueMembers members)

def ofValues : List Value → List Setting
  | [] => []
  | v :: vs => ofValue v :: ofValues vs

def ofValueMembers : List (String × Value) → List (String × Setting)
  | [] => []
  | (k, v) :: vs => (k, ofValue v) :: ofValueMembers vs

end

/-- A step into settings: to a member of a table, or to an item of a list, from its end if the
number is negative. -/
inductive Step
  | key (name : String)
  | index (i : Int)
  deriving DecidableEq

def members : Setting → List (String × Setting)
  | table ms => ms
  | _ => []

def items : Setting → List Setting
  | list is => is
  | _ => []

def changeMember (name : String) (change : Setting → Setting) :
    List (String × Setting) → List (String × Setting)
  | [] => [(name, change .nothing)]
  | (k, s) :: rest =>
    if k = name then (k, change s) :: rest else (k, s) :: changeMember name change rest

def changeItem (i : Int) (change : Setting → Setting) (is : List Setting) : List Setting :=
  if i < 0 then
    let missing := i.natAbs - is.length
    (List.replicate missing Setting.nothing ++ is).modify (is.length - i.natAbs) change
  else (is ++ List.replicate (i.toNat + 1 - is.length) Setting.nothing).modify i.toNat change

def changeAt (change : Setting → Setting) : List Step → Setting → Setting
  | [], s => change s
  | .key name :: steps, s => table (changeMember name (changeAt change steps) s.members)
  | .index i :: steps, s => list (changeItem i (changeAt change steps) s.items)

mutual

def lay : Setting → Setting → Setting
  | .table new, old => .table (layMembers new old.members)
  | new, _ => new

def layMembers : List (String × Setting) → List (String × Setting) → List (String × Setting)
  | [], old => old
  | (k, s) :: rest, old => layMembers rest (changeMember k (lay s) old)

end

def isKeyChar (c : Char) : Bool := c.isAlphanum || c = '_' || c = '-'

def key? (cs : List Char) : Option (String × List Char) :=
  let key := cs.takeWhile isKeyChar
  if key.isEmpty then none else some (String.ofList key, cs.drop key.length)

def skipBlanks (cs : List Char) : List Char := cs.dropWhile fun c => c = ' ' || c = '\t'

def index? (cs : List Char) : Option (Int × List Char) :=
  let cs := skipBlanks cs
  let (negative, rest) := match cs with
    | '-' :: rest => (true, rest)
    | _ => (false, cs)
  let digits := rest.takeWhile Char.isDigit
  match Number.digits? digits, skipBlanks (rest.drop digits.length) with
  | some n, ']' :: rest =>
    if n < 0x8000000000000000 then some (if negative then -n else n, rest) else none
  | _, _ => none

def stepsFrom : Nat → List Char → Option (List Step)
  | _, [] => some []
  | 0, _ => none
  | fuel + 1, '.' :: cs => do
    let (k, rest) ← key? cs
    return .key k :: (← stepsFrom fuel rest)
  | fuel + 1, '[' :: cs => do
    let (i, rest) ← index? cs
    return .index i :: (← stepsFrom fuel rest)
  | _ + 1, _ => none

def steps (name : String) : List Step :=
  let path := do
    let (k, rest) ← key? name.toList
    return Step.key k :: (← stepsFrom rest.length rest)
  path.getD [.key name]

def set (s : Setting) (name : String) (new : Setting) : Setting :=
  changeAt (lay new) (steps name) s

def text? : Setting → Option String
  | text s => some s
  | bool b => some (Value.boolText b)
  | integer n => some n.repr
  | float (.finite x) => some (x.text .plain)
  | float (.infinite false) => some "inf"
  | float (.infinite true) => some "-inf"
  | float .nan => some "NaN"
  | _ => none

def countOfText? (s : String) : Option Nat :=
  let word := String.ofList (s.toList.map Char.toLower)
  if word = "true" || word = "on" || word = "yes" then some 1
  else if word = "false" || word = "off" || word = "no" then some 0
  else
    let digits := match s.toList with
      | '+' :: rest => rest
      | cs => cs
    (Number.digits? digits).filter fun n => n < 0x10000000000000000

def rounded (x : Number.Double) : Nat :=
  let (num, den) := x.fraction
  (2 * num + den) / (2 * den)

def count? : Setting → Option Nat
  | text s => countOfText? s
  | bool b => some (if b then 1 else 0)
  | integer n => if n < 0 then none else some n.toNat
  | float (.finite x) => some (if x.negative then 0 else min (rounded x) 0xFFFFFFFFFFFFFFFF)
  | float (.infinite false) => some 0xFFFFFFFFFFFFFFFF
  | float (.infinite true) | float .nan => some 0
  | _ => none

end Setting

end StaticSite
