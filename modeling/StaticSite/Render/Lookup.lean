import StaticSite.Template.Basic
import StaticSite.Number.Literal

namespace StaticSite

structure Round where
  this : Value
  index : Nat
  key : Option String
  count : Nat

namespace Value

def child? (v : Value) (segment : String) : Option Value :=
  match v with
  | .map members => Props.get? segment members
  | .list items => (Number.digits? segment.toList).bind fun i => items[i]?
  | _ => none

def walk? (v : Value) : List String → Option Value
  | [] => some v
  | s :: rest => (v.child? s).bind fun w => w.walk? rest

end Value

namespace Reference

def inConfig? (config : Props) : List String → Option Value
  | [] => none
  | s :: rest => (config.get? s).bind fun v => v.walk? rest

/-- The innermost round whose item is a map with the first key, or else the configuration. -/
def inScope? (config : Props) (segments : List String) : List Round → Option Value
  | [] => inConfig? config segments
  | r :: outer =>
    match r.this, segments with
    | .map members, s :: _ =>
      if Props.contains s members then r.this.walk? segments else inScope? config segments outer
    | _, _ => inScope? config segments outer

def lookup? (x : Reference) (rounds : List Round) (config : Props) : Option Value :=
  match x.root with
  | .index => rounds.head?.map fun r => .ofNat r.index
  | .key => (rounds.head?.bind Round.key).map .string
  | .first => rounds.head?.map fun r => .bool (r.index = 0)
  | .last => rounds.head?.map fun r => .bool (r.index + 1 = r.count)
  | .this =>
    match rounds with
    | r :: _ => r.this.walk? x.segments
    | [] => inConfig? config x.segments
  | .scope => inScope? config x.segments rounds

end Reference

def roundsOf (items : List (Option String × Value)) : List Round :=
  items.mapIdx fun i m => ⟨m.2, i, m.1, items.length⟩

end StaticSite
