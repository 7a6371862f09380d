import StaticSite.Html.Escape
import StaticSite.Text.Space
import StaticSite.Value.Scalar

namespace StaticSite.Html

/-- `none` is the value of an attribute that is written without one. -/
abbrev Attributes := List (String × Option String)

def attributeText : String × Option String → String
  | (name, some value) => " " ++ name ++ "=\"" ++ escape value ++ "\""
  | (name, none) => " " ++ name

def Attributes.text (as : Attributes) : String := String.join (as.map attributeText)

def accessibleNames : List (String × String) :=
  [("role", "role"), ("ariaLabel", "aria-label"), ("ariaDescribedBy", "aria-describedby"),
   ("ariaLabelledBy", "aria-labelledby"), ("ariaLive", "aria-live"),
   ("ariaHidden", "aria-hidden"), ("ariaExpanded", "aria-expanded"),
   ("ariaControls", "aria-controls"), ("ariaCurrent", "aria-current"),
   ("ariaPressed", "aria-pressed"), ("ariaDisabled", "aria-disabled"),
   ("ariaModal", "aria-modal"), ("ariaHasPopup", "aria-haspopup"), ("tabIndex", "tabindex")]

/-- Blank text, `null`, lists and maps give no attribute; `false` does, for it means something
there. -/
def accessibleValue? : Value → Option String
  | .string s => if Text.isBlank s then none else some s
  | .bool b => some (Value.boolText b)
  | .number n => some n.text
  | _ => none

def accessible (config : Props) : Attributes :=
  match config.get? "a11y" with
  | some (.map group) =>
    accessibleNames.filterMap fun (key, name) =>
      ((Props.get? key group).bind accessibleValue?).map fun value => (name, some value)
  | _ => []

def isAttributeName (name : String) : Bool :=
  match name.toList with
  | [] => false
  | c :: cs =>
    (c.isAlpha || c = '_' || c = '@' || c = ':') &&
      cs.all fun d => d.isAlphanum || d = '-' || d = '_' || d = ':' || d = '.' || d = '@'

/-- `true` gives an attribute without value; `false`, `null`, blank text, lists and maps none. -/
def extraValue? : Value → Option (Option String)
  | .bool true => some none
  | .string s => if Text.isBlank s then none else some (some s)
  | .number n => some (some n.text)
  | _ => none

def extra (config : Props) : Attributes :=
  match config.get? "attrs" with
  | some (.map group) =>
    group.filterMap fun (name, value) =>
      if isAttributeName name then (extraValue? value).map fun v => (name, v) else none
  | _ => []

end StaticSite.Html
