import StaticSite.Number.Shortest

namespace StaticSite.Number

structure Style where
  positional : Int → Bool
  point : Bool

/-- In JSON text, numbers from `0.00001` to below `10 ^ 16` are positional, and a whole double keeps
a zero after the point, which tells it from an integer. -/
def Style.json : Style := ⟨fun e => -5 ≤ e && e < 16, true⟩

def Style.plain : Style := ⟨fun _ => true, false⟩

def zeros (n : Nat) : String := String.ofList (List.replicate n '0')

def pointAfter (n : Nat) (ds : List Char) : String :=
  String.ofList (ds.take n) ++ "." ++ String.ofList (ds.drop n)

def Style.positionalText (st : Style) (x : Decimal) : String :=
  let ds := (Nat.repr x.digits).toList
  if x.exponent ≥ 0 then
    String.ofList ds ++ zeros x.exponent.toNat ++ (if st.point then ".0" else "")
  else
    let places := (-x.exponent).toNat
    if places < ds.length then pointAfter (ds.length - places) ds
    else "0." ++ zeros (places - ds.length) ++ String.ofList ds

def scientificText (x : Decimal) : String :=
  let ds := (Nat.repr x.digits).toList
  let e := x.exponent + ds.length - 1
  let mantissa := if ds.length = 1 then String.ofList ds else pointAfter 1 ds
  mantissa ++ "e" ++ (if e < 0 then "-" else "+") ++ Nat.repr e.natAbs

def Double.text (st : Style) (x : Double) : String :=
  let d := x.shortest
  let lead := d.exponent + (Nat.repr d.digits).length - 1
  (if x.negative then "-" else "") ++
    (if st.positional lead then st.positionalText d else scientificText d)

end StaticSite.Number
