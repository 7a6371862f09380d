import StaticSite.Number.Literal
import StaticSite.Text.Hex
import StaticSite.Toml.Datetime
import StaticSite.Toml.Item

namespace StaticSite.Toml

def grouped? (isDigit : Char → Bool) : List Char → Option (List Char)
  | [] => none
  | [c] => if isDigit c then some [c] else none
  | c :: '_' :: cs => if isDigit c then (grouped? isDigit cs).map (c :: ·) else none
  | c :: d :: cs => if isDigit c then (grouped? isDigit (d :: cs)).map (c :: ·) else none

def natOf (base : Nat) (ds : List Char) : Nat :=
  ds.foldl (fun n c => n * base + (Text.hexValue? c).getD 0) 0

def isHexDigit (c : Char) : Bool := (Text.hexValue? c).isSome

def integer? (n : Int) : Option Item :=
  if h : -0x8000000000000000 ≤ n ∧ n < 0x8000000000000000 then some (.integer n ⟨h.1, by omega⟩)
  else none

def whole? (cs : List Char) : Option (List Char) :=
  match grouped? Char.isDigit cs with
  | some ('0' :: _ :: _) => none
  | ds => ds

def decimal? (cs : List Char) : Option Item := do
  let (negative, cs) := Number.sign cs
  let ds ← whole? cs
  let n : Int := natOf 10 ds
  integer? (if negative then -n else n)

def based? : List Char → Option Item
  | '0' :: 'x' :: cs => do integer? (natOf 16 (← grouped? isHexDigit cs))
  | '0' :: 'o' :: cs => do integer? (natOf 8 (← grouped? (fun c => '0' ≤ c && c ≤ '7') cs))
  | '0' :: 'b' :: cs => do integer? (natOf 2 (← grouped? (fun c => c = '0' || c = '1') cs))
  | _ => none

/-- A number beyond the doubles is refused, or infinite if it is below them and the version takes
it so. -/
def realOf? (v : Version) (negative : Bool) (digits : Nat) (exponent : Int) : Option Number.Real :=
  match Number.Double.ofDecimal? negative digits exponent with
  | some x => some (.finite x)
  | none => if negative && v.isOpenBelow then some (.infinite true) else none

def isExponentMark (c : Char) : Bool := c = 'e' || c = 'E'

def exponent? (cs : List Char) : Option Int := do
  let (negative, cs) := Number.sign cs
  let n : Int := natOf 10 (← grouped? Char.isDigit cs)
  return if negative then -n else n

def float? (v : Version) (cs : List Char) : Option Item := do
  let (negative, cs) := Number.sign cs
  if cs = ['i', 'n', 'f'] then return .float (.infinite negative)
  if cs = ['n', 'a', 'n'] then return .float .nan
  let (mantissa, tail) := cs.span fun c => !isExponentMark c
  let exponent ← match tail with
    | [] => some 0
    | _ :: e => exponent? e
  let (before, after) := mantissa.span (· ≠ '.')
  match after with
  | [] => if tail.isEmpty then none else
    return .float (← realOf? v negative (natOf 10 (← whole? before)) exponent)
  | _ :: places =>
    let whole ← whole? before
    let places ← grouped? Char.isDigit places
    return .float (← realOf? v negative (natOf 10 (whole ++ places)) (exponent - places.length))

def bare? (v : Version) (cs : List Char) : Option Item :=
  if cs = ['t', 'r', 'u', 'e'] then some (.boolean true)
  else if cs = ['f', 'a', 'l', 's', 'e'] then some (.boolean false)
  else
    (Datetime.ofChars? v cs).map (fun d => .datetime d.text) <|> decimal? cs <|> based? cs <|>
      float? v cs

end StaticSite.Toml
