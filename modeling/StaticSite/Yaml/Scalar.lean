import StaticSite.Datum.Basic
import StaticSite.Number.Literal
import StaticSite.Text.Hex
import StaticSite.Yaml.Node

namespace StaticSite.Yaml

def isNull (s : String) : Bool := s = "null" || s = "Null" || s = "NULL" || s = "~"

def bool? (s : String) : Option Bool :=
  if s = "true" || s = "True" || s = "TRUE" then some true
  else if s = "false" || s = "False" || s = "FALSE" then some false
  else none

def digitValue? (base : Nat) (c : Char) : Option Nat :=
  (Text.hexValue? c).filter (· < base)

def nat? (base : Nat) (cs : List Char) : Option Nat :=
  if cs.isEmpty then none else cs.foldlM (fun n c => (digitValue? base c).map (n * base + ·)) 0

def isPadded (cs : List Char) : Bool :=
  let ds := match cs with
    | '-' :: rest | '+' :: rest => rest
    | _ => cs
  match ds with
  | '0' :: d :: rest => (d :: rest).all Char.isDigit
  | _ => false

def based? : List Char → Option Nat
  | '0' :: 'x' :: ds => nat? 16 ds
  | '0' :: 'o' :: ds => nat? 8 ds
  | '0' :: 'b' :: ds => nat? 2 ds
  | _ => none

def int? (cs : List Char) : Option Int :=
  let positive := match cs with
    | '+' :: rest => rest
    | _ => cs
  let unsigned : Option Int := do
    let n ← match based? positive with
      | some n => some n
      | none => if isPadded cs then none else nat? 10 positive
    if n < 0x100000000000000000000000000000000 then some n else none
  let negative : Option Int := match cs with
    | '-' :: rest => do
      let n ← match based? rest with
        | some n => some n
        | none => if isPadded cs then none else nat? 10 rest
      if n ≤ 0x80000000000000000000000000000000 then some (-n) else none
    | _ => none
  unsigned <|> negative

def real? (cs : List Char) : Option Number.Real :=
  let word (s : String) := s = ".inf" || s = ".Inf" || s = ".INF"
  let positive := match cs with
    | '+' :: rest => rest
    | _ => cs
  let doubled := match cs with
    | '+' :: '+' :: _ | '+' :: '-' :: _ => true
    | _ => false
  if doubled then none
  else if word (String.ofList positive) then some (.infinite false)
  else if cs.head? = some '-' && word (String.ofList (cs.drop 1)) then some (.infinite true)
  else if [".nan", ".NaN", ".NAN"].contains (String.ofList cs) then some .nan
  else
    let (negative, digits) := Number.sign positive
    match Number.decimal? negative digits with
    | some (.finite x) => some (.finite x)
    | _ => none

def plainValue? (s : String) : Option Value :=
  let cs := s.toList
  if s.isEmpty || isNull s then some .null
  else match bool? s with
    | some b => some (.bool b)
    | none => match int? cs with
      | some n => if h : Number.IsExact n then some (.number (.int n h)) else none
      | none =>
        match if isPadded cs then none else real? cs with
        | some x => some (.ofReal x)
        | none => some (.string s)

def ownTag? (tag : String) : Option String :=
  match tag.toList with
  | '!' :: cs => some (String.ofList cs)
  | _ => none

def taggedValue? (tag s : String) : Option Value :=
  if tag = tagBase ++ "bool" then (bool? s).map .bool
  else if tag = tagBase ++ "int" then
    match int? s.toList with
    | some n => if h : Number.IsExact n then some (.number (.int n h)) else none
    | none => none
  else if tag = tagBase ++ "float" then (real? s.toList).map .ofReal
  else if tag = tagBase ++ "null" then if isNull s then some .null else none
  else if (ownTag? tag).isSome then none
  else some (.string s)

/-- A tag that is not one of the language may name a choice, before an empty scalar. -/
def choice? (tag : Option String) (s : String) (plain : Bool) : Option String :=
  match tag.bind ownTag? with
  | some name => if plain && (s.isEmpty || isNull s) then some name else none
  | none => some s

def scalar (tag : Option String) (s : String) (plain : Bool) : Scalar where
  value := match tag with
    | some t => taggedValue? t s
    | none => if plain then plainValue? s else some (.string s)
  text := some s
  choice := choice? tag s plain
  absent := plain && (match tag with
    | some t => t = tagBase ++ "null" && isNull s
    | none => s.isEmpty || isNull s)
  empty := plain && s.isEmpty

end StaticSite.Yaml
