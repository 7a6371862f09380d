import StaticSite.Value.Basic

namespace StaticSite.Value

def isTruthy : Value → Bool
  | .null => false
  | .bool b => b
  | .number n => !n.isZero
  | .string s => !s.isEmpty
  | .list items => !items.isEmpty
  | .map members => !members.isEmpty

def kind : Value → String
  | .null => "null"
  | .bool _ => "boolean"
  | .number _ => "number"
  | .string _ => "string"
  | .list _ => "list"
  | .map _ => "map"

def boolText (b : Bool) : String := if b then "true" else "false"

def text? : Value → Option String
  | .null => some ""
  | .bool b => some (boolText b)
  | .number n => some n.text
  | .string s => some s
  | .list _ | .map _ => none

end StaticSite.Value
