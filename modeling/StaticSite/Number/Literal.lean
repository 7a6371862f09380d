import StaticSite.Number.Basic

namespace StaticSite.Number

def sign (cs : List Char) : Bool × List Char :=
  match cs with
  | '-' :: rest => (true, rest)
  | '+' :: rest => (false, rest)
  | _ => (false, cs)

def natOf (ds : List Char) : Nat := ds.foldl (fun n c => n * 10 + (c.toNat - '0'.toNat)) 0

def digits? (cs : List Char) : Option Nat :=
  if cs.isEmpty || !cs.all Char.isDigit then none else some (natOf cs)

def integer? (cs : List Char) : Option Int :=
  let (negative, ds) := sign cs
  (digits? ds).map fun n => if negative then -(n : Int) else n

def decimal? (negative : Bool) (cs : List Char) : Option Real := do
  let (mantissa, tail) := cs.span fun c => c ≠ 'e' && c ≠ 'E'
  let (whole, fraction) := mantissa.span (· ≠ '.')
  let places := fraction.drop 1
  let ds ← digits? (whole ++ places)
  let exponent ← match tail with
    | [] => some 0
    | _ :: e => integer? e
  return match Double.ofDecimal? negative ds (exponent - places.length) with
    | some x => .finite x
    | none => .infinite negative

def real? (cs : List Char) : Option Real :=
  let (negative, rest) := sign cs
  let word := String.ofList (rest.map Char.toLower)
  if word = "inf" || word = "infinity" then some (.infinite negative)
  else if word = "nan" then some .nan
  else decimal? negative rest

def ofLiteral? (cs : List Char) : Option Number :=
  match integer? cs with
  | some n => if -0x8000000000000000 ≤ n ∧ n < 0x8000000000000000 then ofInt? n else float? cs
  | none => float? cs
where
  float? (cs : List Char) : Option Number :=
    match real? cs with
    | some (.finite x) => some (.float x)
    | _ => none

end StaticSite.Number
