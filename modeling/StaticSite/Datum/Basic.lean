import StaticSite.Value.Basic

namespace StaticSite

/-- One undivided piece of data and what it may be read as: a value where any value will do, a text
where a text is wanted, a name where one of several is wanted (`choice`), nothing where something
may be left out (`absent`), and a list or record without members (`empty`). -/
structure Scalar where
  value : Option Value
  text : Option String
  choice : Option String := text
  absent : Bool := false
  empty : Bool := false

/-- The members of a map stand as they were written, repeated keys included. A list or map with a
tag that is not known has no value; it is one all the same where a list or map is wanted. -/
inductive Datum
  | scalar (s : Scalar)
  | list (items : List Datum)
  | map (members : List (String × Datum))
  | tagged (d : Datum)

/-- Whether a list may stand for a record, its items being the fields in order: not at all, with no
more items than there are fields, or with the items after the last field ignored. -/
inductive Positional
  | refused
  | exact
  | lenient
  deriving DecidableEq

def Positional.allows (p : Positional) (fields items : Nat) : Bool :=
  match p with
  | .refused => false
  | .exact => items ≤ fields
  | .lenient => true

namespace Datum

def ofText (s : String) : Datum := .scalar { value := some (.string s), text := some s }

mutual

/-- The free-form reading; a key that comes twice keeps its first place and its last value. -/
def value? : Datum → Option Value
  | .scalar s => s.value
  | .list items => (valueList? items).map .list
  | .map members => (valueMembers? members).map fun ms => .map (Props.ofList ms)
  | .tagged _ => none

def valueList? : List Datum → Option (List Value)
  | [] => some []
  | d :: ds => do return (← value? d) :: (← valueList? ds)

def valueMembers? : List (String × Datum) → Option (List (String × Value))
  | [] => some []
  | (k, d) :: ds => do return (k, ← value? d) :: (← valueMembers? ds)

end

def text? : Datum → Option String
  | .scalar s => s.text
  | _ => none

def choice? (p : Positional) : Datum → Option String
  | .scalar s => s.choice
  | .map [(name, .list [])] | .map [(name, .map [])] => if p = .lenient then some name else none
  | _ => none

def isAbsent : Datum → Bool
  | .scalar s => s.absent
  | _ => false

def optional? (read : Datum → Option α) (d : Datum) : Option (Option α) :=
  if d.isAbsent then some none else (read d).map some

def items? : Datum → Option (List Datum)
  | .scalar s => if s.empty then some [] else none
  | .list items => some items
  | .map _ => none
  | .tagged d => d.items?

def texts? (d : Datum) : Option (List String) := d.items? >>= List.mapM text?

def props? : Datum → Option Props
  | .scalar s => if s.empty then some [] else none
  | .list _ => none
  | .map members => (valueMembers? members).map Props.ofList
  | .tagged d => d.props?

def keysOnce : List String → Bool
  | [] => true
  | k :: ks => !ks.contains k && keysOnce ks

/-- The fields of a record, each at most once. Keys that name no field are refused if the record is
`closed` and ignored if not. -/
def fields? (names : List String) (closed : Bool) (p : Positional) :
    Datum → Option (List (String × Datum))
  | .scalar s => if s.empty then some [] else none
  | .list items => if p.allows names.length items.length then some (names.zip items) else none
  | .map members =>
    let known := members.filter fun m => names.contains m.1
    if closed && known.length ≠ members.length then none
    else if keysOnce (known.map Prod.fst) then some known
    else none
  | .tagged d => d.fields? names closed p

end Datum

def required? (read : Datum → Option α) (name : String) (fields : List (String × Datum)) :
    Option α :=
  (fields.lookup name).bind read

def defaulted? (read : Datum → Option α) (name : String) (value : α)
    (fields : List (String × Datum)) : Option α :=
  match fields.lookup name with
  | none => some value
  | some d => read d

end StaticSite
