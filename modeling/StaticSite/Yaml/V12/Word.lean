import StaticSite.Number.Literal
import StaticSite.Text.Hex
import StaticSite.Yaml.Node

namespace StaticSite.Yaml.V12

inductive Word
  | null
  | bool (b : Bool)
  | integer (n : Int)
  | real (spelling : String)
  | text (s : String)
  deriving DecidableEq

def integer64? (n : Int) : Option Int :=
  if -0x8000000000000000 ≤ n ∧ n < 0x8000000000000000 then some n else none

def decimal? (cs : List Char) : Option Int := Number.integer? cs >>= integer64?

def based? (base : Nat) (cs : List Char) : Option Int := do
  let (negative, ds) := Number.sign cs
  if ds.isEmpty then failure
  let n ← ds.foldlM (fun n d => do
    let k ← Text.hexValue? d
    if k < base then some (n * base + k) else none) 0
  integer64? (if negative then -(n : Int) else n)

def real? (cs : List Char) : Option Number.Real :=
  let (negative, ds) := Number.sign cs
  Number.decimal? negative ds

def isReal (s : String) : Bool :=
  (real? s.toList).isSome ||
    [".inf", ".Inf", ".INF", "+.inf", "+.Inf", "+.INF", "-.inf", "-.Inf", "-.INF",
      ".nan", ".NaN", ".NAN"].contains s

/-- An integer with a mark for its base or with a plus sign before it, which may come before another
sign. -/
def marked? : List Char → Option Int
  | '0' :: 'x' :: cs => based? 16 cs
  | '0' :: 'o' :: cs => based? 8 cs
  | '+' :: cs => decimal? cs
  | _ => none

namespace Word

def ofPlain (s : String) : Word :=
  match marked? s.toList <|> decimal? s.toList with
  | some n => integer n
  | none =>
    if s = "~" || s = "null" then null
    else if s = "true" || s = "True" || s = "TRUE" then bool true
    else if s = "false" || s = "False" || s = "FALSE" then bool false
    else if isReal s then real s
    else text s

def ofTagged? (t : Tag) (s : String) : Option Word :=
  if t.base ≠ tagBase then some (text s)
  else if t.suffix = "bool" then
    if s = "true" then some (bool true) else if s = "false" then some (bool false) else none
  else if t.suffix = "int" then (decimal? s.toList).map integer
  else if t.suffix = "float" then if isReal s then some (real s) else none
  else if t.suffix = "null" then if s = "~" || s = "null" then some null else none
  else some (text s)

def ofScalar? (p : Properties) (s : String) (plain : Bool) : Option Word :=
  if !plain then some (text s)
  else
    match p.tag with
    | some t => ofTagged? t s
    | none => some (ofPlain s)

def key? : Word → Option String
  | null => none
  | bool b => some (if b then "true" else "false")
  | integer n => some n.repr
  | real s | text s => some s

end Word

end StaticSite.Yaml.V12
