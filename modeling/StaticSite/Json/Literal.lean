import StaticSite.Number.Literal

namespace StaticSite.Json

/-- Digits gathered into 64 bits: once a digit does not fit, it and all that follow are dropped. The
digits before and after a point are gathered in turn. -/
structure Gathered where
  significand : Nat := 0
  dropped : Nat := 0
  full : Bool := false

def Gathered.push (g : Gathered) (digit : Nat) : Gathered :=
  if g.full || g.significand * 10 + digit ≥ 0x10000000000000000 then
    { g with dropped := g.dropped + 1, full := true }
  else { g with significand := g.significand * 10 + digit }

def Gathered.pushAll (g : Gathered) (ds : List Char) : Gathered :=
  ds.foldl (fun g c => g.push (c.toNat - '0'.toNat)) g

def power (n : Nat) : Nat × Nat :=
  ((Number.Double.ofDecimal? false 1 n).map Number.Double.fraction).getD (1, 1)

def shrink : Nat → Number.Double → Nat → Number.Double
  | 0, x, _ => x
  | fuel + 1, x, n =>
    let step := min n 308
    let (pn, pd) := power step
    let (xn, xd) := x.fraction
    let y := (Number.Double.ofFraction? x.negative (xn * pd) (xd * pn)).getD x
    if n ≤ 308 then y else shrink fuel y (n - 308)

/-- A significand scaled by a power of ten in the arithmetic of doubles: it is rounded, then it is
multiplied once or divided as often as needed. `none` if the result is too great. -/
def scale (negative : Bool) (significand : Nat) (exponent : Int) : Option Number.Double := do
  let x ← Number.Double.ofFraction? negative significand 1
  if exponent ≥ 0 then
    if exponent > 308 then if significand = 0 then some x else none
    else
      let (pn, pd) := power exponent.toNat
      let (xn, xd) := x.fraction
      Number.Double.ofFraction? negative (xn * pn) (xd * pd)
  else if significand = 0 then some x
  else
    let n := (-exponent).toNat
    if n > 2000 then Number.Double.ofPlace? negative 0 else some (shrink 8 x n)

structure Literal where
  negative : Bool
  whole : List Char
  places : Option (List Char)
  exponent : Option Int

/-- An integer keeps its exact value if it has one and is not `-0`; all else is a double. -/
def Literal.number? (l : Literal) : Option Number :=
  let n := Number.natOf l.whole
  let exact : Int := if l.negative then -n else n
  if h : l.places.isNone ∧ l.exponent.isNone ∧ Number.IsExact exact ∧ ¬ (l.negative ∧ n = 0) then
    some (.int exact h.2.2.1)
  else
    let places := l.places.getD []
    let w : Gathered := ({} : Gathered).pushAll l.whole
    let g := ({ w with dropped := 0, full := false } : Gathered).pushAll places
    let shift : Int := (w.dropped : Int) - ((places.length : Int) - g.dropped)
    (scale l.negative g.significand (shift + l.exponent.getD 0)).map .float

def digits (cs : List Char) : List Char × List Char := cs.span Char.isDigit

def exponent? : List Char → Option (Option Int)
  | [] => some none
  | c :: cs =>
    if c = 'e' || c = 'E' then
      let (negative, cs) := match cs with
        | '-' :: rest => (true, rest)
        | '+' :: rest => (false, rest)
        | _ => (false, cs)
      match digits cs with
      | ([], _) => none
      | (ds, []) => some (some (if negative then -(Number.natOf ds : Int) else Number.natOf ds))
      | _ => none
    else none

def Literal.ofChars? (cs : List Char) : Option Literal := do
  let (negative, cs) := match cs with
    | '-' :: rest => (true, rest)
    | _ => (false, cs)
  let (whole, rest) := digits cs
  if whole.isEmpty || (whole.head? = some '0' && whole.length > 1) then none
  else
    match rest with
    | '.' :: rest =>
      let (places, rest) := digits rest
      if places.isEmpty then none
      else return { negative, whole, places := some places, exponent := ← exponent? rest }
    | _ => return { negative, whole, places := none, exponent := ← exponent? rest }

end StaticSite.Json
