import StaticSite.Number.Text

namespace StaticSite

namespace Number

/-- The integers that keep their exact value: those of 64 bits, signed or unsigned. -/
abbrev IsExact (n : Int) : Prop := -0x8000000000000000 ≤ n ∧ n < 0x10000000000000000

end Number

inductive Number
  | int (n : Int) (exact : Number.IsExact n)
  | float (x : Number.Double)
  deriving DecidableEq

namespace Number

def ofInt? (n : Int) : Option Number :=
  if h : IsExact n then some (.int n h)
  else (Double.ofDecimal? (n < 0) n.natAbs 0).map .float

def ofNat (n : Nat) : Number := (ofInt? n).getD (.float ⟨false, 0, by decide⟩)

def isZero : Number → Bool
  | .int n _ => n = 0
  | .float x => x.isZero

def text : Number → String
  | .int n _ => n.repr
  | .float x => x.text .json

inductive Real
  | finite (x : Double)
  | infinite (negative : Bool)
  | nan
  deriving DecidableEq

end Number

end StaticSite
