import StaticSite.Text.Kebab
import StaticSite.Text.Space
import StaticSite.Value.Scalar

namespace StaticSite.Html

abbrev ClassList := List String

namespace ClassList

def push (cs : ClassList) (c : String) : ClassList :=
  if c.isEmpty || cs.contains c then cs else cs ++ [c]

def pushAll (cs : ClassList) (new : List String) : ClassList := new.foldl push cs

def text (cs : ClassList) : String := " ".intercalate cs

end ClassList

/-- What classes a fragment gives itself: `base` if it is not its name, the keys whose values are
classes, and the keys whose truth is a class. -/
structure ClassRules where
  base : Option String := none
  modifiers : List String := []
  flags : List String := []
  deriving DecidableEq

def leadingModifiers : List String := ["variant", "size", "style", "shape", "state"]

namespace ClassRules

def orderedModifiers (r : ClassRules) : List String :=
  leadingModifiers.filter r.modifiers.contains ++
    r.modifiers.filter fun m => !leadingModifiers.contains m

/-- The text of a modifier: text that is not blank, without the space around it, or a number. -/
def modifierText? : Value → Option String
  | .string s => if Text.isBlank s then none else some (Text.trim s)
  | .number n => some n.text
  | _ => none

/-- The class of a modifier, if the configuration sets it to something other than its default. -/
def modifierClass? (base : String) (defaults config : Props) (key : String) : Option String :=
  match (config.get? key).bind modifierText? with
  | none => none
  | some value =>
    if (defaults.get? key).bind modifierText? = some value then none
    else if key = "state" then some ("is-" ++ value)
    else some (base ++ "-" ++ value)

def flagClass? (base : String) (config : Props) (flag : String) : Option String :=
  match config.get? flag with
  | some value => if value.isTruthy then some (base ++ "--" ++ Text.kebab flag) else none
  | none => none

def callerClasses (config : Props) : List String :=
  match config.get? "className" with
  | some (.string s) => Text.words s
  | some (.list items) =>
    items.flatMap fun
      | .string s => Text.words s
      | _ => []
  | _ => []

def candidates (r : ClassRules) (fragment : String) (defaults config : Props) : List String :=
  let base := r.base.getD fragment
  base :: (r.orderedModifiers.filterMap (modifierClass? base defaults config) ++
    r.flags.filterMap (flagClass? base config) ++ callerClasses config)

def build (r : ClassRules) (fragment : String) (defaults config : Props) : ClassList :=
  ClassList.pushAll [] (r.candidates fragment defaults config)

end ClassRules

end StaticSite.Html
