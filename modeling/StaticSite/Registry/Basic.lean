import StaticSite.Fragment.Basic
import StaticSite.Fragment.Error
import StaticSite.Fragment.Name
import StaticSite.Registry.Cycle
import StaticSite.Text.Ticked
import StaticSite.Value.Merge

namespace StaticSite

structure Registry where
  fragments : List Fragment := []
  index : List (String × Nat) := []

namespace Registry

def size (r : Registry) : Nat := r.fragments.length

def names (r : Registry) : List String := r.fragments.map Fragment.name

abbrev Id (r : Registry) := Fin r.fragments.length

def get (r : Registry) (id : r.Id) : Fragment := r.fragments[id]

def id? (r : Registry) (name : String) : Option r.Id :=
  (r.index.lookup name).bind fun i => if h : i < r.fragments.length then some ⟨i, h⟩ else none

def find? (r : Registry) (name : String) : Option Fragment := (r.id? name).map r.get

def contains (r : Registry) (name : String) : Bool := (r.index.lookup name).isSome

def graph (r : Registry) : DependencyGraph := r.fragments.map fun f => (f.name, f.dependencies)

def add (r : Registry) (f : Fragment) : Registry :=
  { fragments := r.fragments ++ [f], index := (f.name, r.size) :: r.index }

/-- Enters a fragment and gives its place, and the registry after it. The dependencies of the
fragment need not be there yet, but no cycle may come about. -/
def enter (r : Registry) (f : Fragment) : Except FragmentError Nat × Registry :=
  if !isFragmentName f.name then (.error (.invalidName f.name), r)
  else if r.contains f.name then (.error (.duplicate f.name), r)
  else
    match f.dependencies.find? fun d => !isFragmentName d with
    | some d => (.error (.invalidName d), r)
    | none =>
      match DependencyGraph.cycle? ((f.name, f.dependencies) :: r.graph) with
      | some names => (.error (.cycle names), r)
      | none => (.ok r.size, r.add f)

def register (r : Registry) (f : Fragment) : Except FragmentError Registry :=
  match r.enter f with
  | (.ok _, r) => .ok r
  | (.error e, _) => .error e

def resolve (r : Registry) (name : String) : Except FragmentError r.Id :=
  match r.id? name with
  | some id => .ok id
  | none => .error (.unknown name none)

def missing? (r : Registry) (f : Fragment) : Option FragmentError :=
  (f.dependencies.find? fun d => !r.contains d).map fun d => .unknown d (some f.name)

def validate (r : Registry) : Except FragmentError Unit :=
  match r.fragments.findSome? r.missing? with
  | some e => .error e
  | none => .ok ()

structure Walk where
  seen : List String := []
  order : List String := []

def visit (r : Registry) : Nat → Walk → String → Walk
  | 0, w, _ => w
  | fuel + 1, w, name =>
    if w.seen.contains name then w
    else
      match r.find? name with
      | none => w
      | some f =>
        let w := f.dependencies.foldl (visit r fuel) { w with seen := name :: w.seen }
        { w with order := w.order ++ [name] }

def renderOrder (r : Registry) : List String :=
  (r.names.foldl (r.visit (r.size + 1)) {}).order

def tierWarning (f dependency : Fragment) : String :=
  f.tier.text ++ " " ++ Text.ticked f.name ++ " depends on " ++ dependency.tier.text ++ " " ++
    Text.ticked dependency.name

def tierWarnings (r : Registry) : List String :=
  r.fragments.flatMap fun f =>
    (f.dependencies.filterMap r.find?).filterMap fun d =>
      if f.tier.rank < d.tier.rank then some (tierWarning f d) else none

def countTier (r : Registry) (t : Tier) : Nat := (r.fragments.filter fun f => f.tier = t).length

end Registry

namespace Fragment

def effective (f : Fragment) (props : Props) : Props := f.defaults.merge props

def classList (f : Fragment) (config : Props) : Html.ClassList :=
  f.classes.build f.name f.defaults config

end Fragment

end StaticSite
