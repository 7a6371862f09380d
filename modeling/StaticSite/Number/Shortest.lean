import StaticSite.Number.Double

namespace StaticSite.Number

structure Decimal where
  digits : Nat
  exponent : Int
  deriving DecidableEq

def Decimal.strip (fuel : Nat) (x : Decimal) : Decimal :=
  match fuel with
  | 0 => x
  | fuel + 1 =>
    if x.digits ≠ 0 ∧ x.digits % 10 = 0 then strip fuel ⟨x.digits / 10, x.exponent + 1⟩ else x

/-- The numbers around a positive double that round to it: everything between `low` and `high`, in
the fourth part of the unit of its significand, the ends included if `closed`. -/
structure Interval where
  low : Nat
  value : Nat
  high : Nat
  closed : Bool

def Double.interval (x : Double) : Interval :=
  let m := x.significand
  let narrow := x.place % block = 0 && x.place ≥ 2 * block
  { low := if narrow then 4 * m - 1 else 4 * m - 2
    value := 4 * m
    high := 4 * m + 2
    closed := m % 2 = 0 }

/-- Of the two points of a decimal grid next to the value, the one nearest to it among those in the
interval; of two equally near the one with an even digit. All numbers are multiplied by `scale`,
and the points of the grid are the multiples of `step`. -/
def Interval.pick (i : Interval) (scale step : Nat) : Option Nat :=
  let value := i.value * scale
  let below := value / step
  let inside (k : Nat) : Bool :=
    if i.closed then i.low * scale ≤ k * step && k * step ≤ i.high * scale
    else i.low * scale < k * step && k * step < i.high * scale
  let under := value - below * step
  let above := (below + 1) * step - value
  match inside below && below ≠ 0, inside (below + 1) with
  | true, true =>
    if under < above then some below
    else if above < under then some (below + 1)
    else if below % 2 = 0 then some below else some (below + 1)
  | true, false => some below
  | false, true => some (below + 1)
  | false, false => none

def Interval.search (i : Interval) (unit : Int) : Nat → Int → Option Decimal
  | 0, _ => none
  | fuel + 1, exponent =>
    let scale := Nat.pow 2 unit.toNat * Nat.pow 10 (-exponent).toNat
    let step := Nat.pow 2 (-unit).toNat * Nat.pow 10 exponent.toNat
    match i.pick scale step with
    | some k => some ⟨k, exponent⟩
    | none => search i unit fuel (exponent - 1)

def leadingExponent (n : Int) : Int := (n * 30103) / 100000 + 1

def Double.shortest (x : Double) : Decimal :=
  if x.isZero then ⟨0, 0⟩
  else
    let unit : Int := (x.unit : Int) - 1076
    let top := leadingExponent ((x.significand.log2 : Int) + (x.unit : Int) - 1074 + 1)
    ((x.interval.search unit 24 top).getD ⟨0, 0⟩).strip 24

example : (Double.ofDecimal? false 1 (-1)).map Double.shortest = some ⟨1, -1⟩ := by decide +kernel
example : (Double.ofDecimal? false 5 (-324)).map Double.shortest = some ⟨5, -324⟩ := by
  decide +kernel
example : (Double.ofDecimal? false 9007199254740993 0).map Double.shortest =
    some ⟨9007199254740992, 0⟩ := by decide +kernel
example : (Double.ofDecimal? false 17976931348623157 292).map Double.shortest =
    some ⟨17976931348623157, 292⟩ := by decide +kernel

end StaticSite.Number
