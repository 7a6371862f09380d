import StaticSite.Html.Classes
import StaticSite.Template.Basic

namespace StaticSite

/-- How much a fragment is made of; later tiers are made of earlier ones. -/
inductive Tier
  | atom
  | molecule
  | organism
  deriving DecidableEq

namespace Tier

def text : Tier → String
  | atom => "atom"
  | molecule => "molecule"
  | organism => "organism"

def rank : Tier → Nat
  | atom => 0
  | molecule => 1
  | organism => 2

def ofText? : String → Option Tier
  | "atom" => some atom
  | "molecule" => some molecule
  | "organism" => some organism
  | _ => none

end Tier

/-- Child content that is known beforehand: markup, or a failure in the name of a fragment. -/
inductive Supply
  | html (s : String)
  | failure (message fragment : String)
  deriving DecidableEq

/-- One step of a fragment that is not a template; each but `fail` and the failures of children and
of other fragments appends to its markup. The steps are the same whatever the fragment is given:
they do not branch, `invoke` hands on fixed props and children and none of the fragment's own, and
only `tryChildren` outlives a failure. -/
inductive Action
  | text (s : String)
  | name
  | tier
  | prop (key : String)
  | config
  | classes
  | accessible
  | attributes
  | hasChildren
  | children
  | tryChildren
  | invoke (name : String) (props : Props) (children : Option Supply)
  | fail (message : String)

inductive Body
  | template (t : Template)
  | native (actions : List Action)

structure Fragment where
  name : String
  tier : Tier := .atom
  defaults : Props := []
  classes : Html.ClassRules := {}
  dependencies : List String := []
  body : Body

namespace Fragment

def addDependencies (f : Fragment) (names : List String) : Fragment :=
  { f with dependencies := names.foldl Template.addName f.dependencies }

def dependsOn (f : Fragment) (name : String) : Bool := f.dependencies.contains name

end Fragment

end StaticSite
