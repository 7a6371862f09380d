namespace StaticSite.Text

/-- A character of several bytes of which some have been read: its code so far, how many bytes are
missing, and the bounds of the next one. -/
structure PartialChar where
  code : Nat
  missing : Nat
  low : Nat := 0x80
  high : Nat := 0xBF

def replacement : Char := '\ufffd'

namespace PartialChar

def ofByte? (b : Nat) : Option PartialChar :=
  if 0xC2 ≤ b ∧ b ≤ 0xDF then some { code := b - 0xC0, missing := 1 }
  else if b = 0xE0 then some { code := 0, missing := 2, low := 0xA0 }
  else if b = 0xED then some { code := 0xD, missing := 2, high := 0x9F }
  else if 0xE1 ≤ b ∧ b ≤ 0xEF then some { code := b - 0xE0, missing := 2 }
  else if b = 0xF0 then some { code := 0, missing := 3, low := 0x90 }
  else if 0xF1 ≤ b ∧ b ≤ 0xF3 then some { code := b - 0xF0, missing := 3 }
  else if b = 0xF4 then some { code := 4, missing := 3, high := 0x8F }
  else none

def start (b : Nat) : List Char × Option PartialChar :=
  if b < 0x80 then ([Char.ofNat b], none)
  else
    match ofByte? b with
    | some p => ([], some p)
    | none => ([replacement], none)

def next (p : PartialChar) (b : Nat) : List Char × Option PartialChar :=
  if b < p.low ∨ p.high < b then
    let (cs, q) := start b
    (replacement :: cs, q)
  else
    let code := p.code * 0x40 + (b - 0x80)
    if p.missing = 1 then ([Char.ofNat code], none)
    else ([], some { code, missing := p.missing - 1 })

end PartialChar

open PartialChar in
def charsFrom : Option PartialChar → List UInt8 → List Char
  | none, [] => []
  | some _, [] => [replacement]
  | p, b :: bs =>
    let (cs, q) := p.elim (start b.toNat) (·.next b.toNat)
    cs ++ charsFrom q bs

/-- The text in some bytes. Each longest beginning of a character that is broken off, and each byte
with which none begins, gives one replacement. -/
def ofBytes (bytes : List UInt8) : String := String.ofList (charsFrom none bytes)

example : ofBytes [0xE2, 0x82, 0x7A, 0xC3, 0xA9, 0xF0, 0x9F, 0x98] = "�zé�" := by
  decide +kernel

end StaticSite.Text
