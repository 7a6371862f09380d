import StaticSite.Toml.Version

namespace StaticSite.Toml

structure Date where
  year : Nat
  month : Nat
  day : Nat
  deriving DecidableEq

structure Time where
  hour : Nat
  minute : Nat
  second : Option Nat
  nanosecond : Option Nat
  deriving DecidableEq

inductive Offset
  | utc
  | minutes (n : Int)
  deriving DecidableEq

/-- At least one of date and time is there, and an offset only with both. -/
structure Datetime where
  date : Option Date
  time : Option Time
  offset : Option Offset
  deriving DecidableEq

def daysIn (year month : Nat) : Nat :=
  if month = 2 then if year % 4 = 0 ∧ (year % 100 ≠ 0 ∨ year % 400 = 0) then 29 else 28
  else if month = 4 ∨ month = 6 ∨ month = 9 ∨ month = 11 then 30
  else 31

def fixed? (n : Nat) (cs : List Char) : Option (Nat × List Char) :=
  let ds := cs.take n
  if ds.length = n ∧ ds.all Char.isDigit then
    some (ds.foldl (fun m c => m * 10 + (c.toNat - '0'.toNat)) 0, cs.drop n)
  else none

def mark? (c : Char) : List Char → Option (List Char)
  | d :: cs => if d = c then some cs else none
  | [] => none

def Date.read? (cs : List Char) : Option (Date × List Char) := do
  let (year, cs) ← fixed? 4 cs
  let cs ← mark? '-' cs
  let (month, cs) ← fixed? 2 cs
  let cs ← mark? '-' cs
  let (day, cs) ← fixed? 2 cs
  if 1 ≤ month ∧ month ≤ 12 ∧ 1 ≤ day ∧ day ≤ daysIn year month then
    some (⟨year, month, day⟩, cs)
  else none

def nanoseconds? : List Char → Option (Option Nat × List Char)
  | '.' :: cs =>
    let ds := cs.takeWhile Char.isDigit
    if ds.isEmpty then none
    else
      let kept := (ds ++ List.replicate 9 '0').take 9
      let n := kept.foldl (fun m c => m * 10 + (c.toNat - '0'.toNat)) 0
      some (some n, cs.drop ds.length)
  | cs => some (none, cs)

/-- Seconds with their fraction. In the earlier version a fraction of zero counts for nothing. -/
def seconds? (v : Version) (cs : List Char) : Option (Nat × Option Nat × List Char) := do
  let cs ← mark? ':' cs
  let (second, cs) ← fixed? 2 cs
  let (nanosecond, cs) ← nanoseconds? cs
  let nanosecond := if v = .toml10 then nanosecond.filter (· ≠ 0) else nanosecond
  if second ≤ 60 then some (second, nanosecond, cs) else none

def Time.read? (v : Version) (cs : List Char) : Option (Time × List Char) := do
  let (hour, cs) ← fixed? 2 cs
  let cs ← mark? ':' cs
  let (minute, cs) ← fixed? 2 cs
  if 23 < hour ∨ 59 < minute then none
  else if v = .toml11 ∧ cs.head? ≠ some ':' then some (⟨hour, minute, none, none⟩, cs)
  else
    let (second, nanosecond, cs) ← seconds? v cs
    return (⟨hour, minute, some second, nanosecond⟩, cs)

def Offset.read? : List Char → Option (Option Offset)
  | [] => some none
  | [c] => if c = 'Z' || c = 'z' then some (some .utc) else none
  | c :: cs => do
    let negative ← if c = '-' then some true else if c = '+' then some false else none
    let (hour, cs) ← fixed? 2 cs
    let cs ← mark? ':' cs
    let (minute, cs) ← fixed? 2 cs
    if hour ≤ 23 ∧ minute ≤ 59 ∧ cs.isEmpty then
      let n : Int := hour * 60 + minute
      some (some (.minutes (if negative then -n else n)))
    else none

def Datetime.ofChars? (v : Version) (cs : List Char) : Option Datetime :=
  match Date.read? cs with
  | some (date, []) => some ⟨some date, none, none⟩
  | some (date, c :: rest) =>
    if c = 'T' || c = 't' || c = ' ' then do
      let (time, rest) ← Time.read? v rest
      return ⟨some date, some time, ← Offset.read? rest⟩
    else none
  | none =>
    match Time.read? v cs with
    | some (time, []) => some ⟨none, some time, none⟩
    | _ => none

def padded (n m : Nat) : String :=
  let s := Nat.repr m
  String.ofList (List.replicate (n - s.length) '0') ++ s

def Date.text (d : Date) : String :=
  padded 4 d.year ++ "-" ++ padded 2 d.month ++ "-" ++ padded 2 d.day

def fractionText (nanosecond : Nat) : String :=
  if nanosecond = 0 then ".0"
  else "." ++ String.ofList ((padded 9 nanosecond).toList.reverse.dropWhile (· = '0')).reverse

def Time.text (t : Time) : String :=
  let second := (t.second.map fun s => ":" ++ padded 2 s).getD ""
  padded 2 t.hour ++ ":" ++ padded 2 t.minute ++ second ++
    (t.nanosecond.map fractionText).getD ""

def Offset.text : Offset → String
  | .utc => "Z"
  | .minutes n =>
    (if n < 0 then "-" else "+") ++ padded 2 (n.natAbs / 60) ++ ":" ++ padded 2 (n.natAbs % 60)

def Datetime.text (d : Datetime) : String :=
  let date := (d.date.map Date.text).getD ""
  let time := (d.time.map Time.text).getD ""
  date ++ (if d.date.isSome && d.time.isSome then "T" else "") ++ time ++
    (d.offset.map Offset.text).getD ""

example : (Datetime.ofChars? .toml10 "1979-05-27 07:32:00.500z".toList).map Datetime.text =
    some "1979-05-27T07:32:00.5Z" := by decide +kernel

example : (Datetime.ofChars? .toml11 "07:32".toList).map Datetime.text = some "07:32" := by
  decide +kernel

end StaticSite.Toml
