import StaticSite.Json.Literal
import StaticSite.Text.Hex

namespace StaticSite.Json

inductive Lexeme
  | openMap
  | closeMap
  | openList
  | closeList
  | comma
  | colon
  | null
  | bool (b : Bool)
  | number (n : Number)
  | string (s : String)
  deriving DecidableEq

/-- Where the automaton stands: between lexemes, in a bare word or number, or in a string, there
after a backslash or among the digits of a code unit. `high` is the first half of a surrogate pair
whose second half must follow. -/
inductive Mode
  | idle
  | bare (rev : List Char)
  | text (rev : List Char) (high : Option Nat)
  | escape (rev : List Char) (high : Option Nat)
  | unit (rev : List Char) (high : Option Nat) (count code : Nat)

structure Reader where
  done : List Lexeme := []
  mode : Mode := .idle

def bareLexeme? (cs : List Char) : Option Lexeme :=
  if cs = ['n', 'u', 'l', 'l'] then some .null
  else if cs = ['t', 'r', 'u', 'e'] then some (.bool true)
  else if cs = ['f', 'a', 'l', 's', 'e'] then some (.bool false)
  else ((Literal.ofChars? cs).bind Literal.number?).map .number

def isGap (c : Char) : Bool := c = ' ' || c = '\n' || c = '\t' || c = '\r'

def mark? (c : Char) : Option Lexeme :=
  if c = '{' then some .openMap
  else if c = '}' then some .closeMap
  else if c = '[' then some .openList
  else if c = ']' then some .closeList
  else if c = ',' then some .comma
  else if c = ':' then some .colon
  else none

def Reader.start (done : List Lexeme) (c : Char) : Reader :=
  if isGap c then ⟨done, .idle⟩
  else if c = '"' then ⟨done, .text [] none⟩
  else match mark? c with
    | some m => ⟨m :: done, .idle⟩
    | none => ⟨done, .bare [c]⟩

def shortEscape? (c : Char) : Option Char :=
  if c = '"' || c = '\\' || c = '/' then some c
  else if c = 'b' then some '\x08'
  else if c = 'f' then some '\x0c'
  else if c = 'n' then some '\n'
  else if c = 'r' then some '\r'
  else if c = 't' then some '\t'
  else none

def endUnit? (rev : List Char) (high : Option Nat) (code : Nat) : Option Mode :=
  match high with
  | some h =>
    if 0xDC00 ≤ code ∧ code ≤ 0xDFFF then
      some (.text (Char.ofNat ((h - 0xD800) * 0x400 + (code - 0xDC00) + 0x10000) :: rev) none)
    else none
  | none =>
    if 0xD800 ≤ code ∧ code ≤ 0xDBFF then some (.text rev (some code))
    else if 0xDC00 ≤ code ∧ code ≤ 0xDFFF then none
    else some (.text (Char.ofNat code :: rev) none)

def Reader.step? (r : Reader) (c : Char) : Option Reader :=
  match r.mode with
  | .idle => some (.start r.done c)
  | .bare rev =>
    if isGap c || c = '"' || (mark? c).isSome then
      (bareLexeme? rev.reverse).map fun l => .start (l :: r.done) c
    else some { r with mode := .bare (c :: rev) }
  | .text rev none =>
    if c = '"' then some ⟨.string (String.ofList rev.reverse) :: r.done, .idle⟩
    else if c = '\\' then some { r with mode := .escape rev none }
    else if c.toNat < 0x20 then none
    else some { r with mode := .text (c :: rev) none }
  | .text rev (some h) => if c = '\\' then some { r with mode := .escape rev (some h) } else none
  | .escape rev none =>
    if c = 'u' then some { r with mode := .unit rev none 0 0 }
    else (shortEscape? c).map fun d => { r with mode := .text (d :: rev) none }
  | .escape rev (some h) => if c = 'u' then some { r with mode := .unit rev (some h) 0 0 } else none
  | .unit rev high count code => do
    let code := code * 16 + (← Text.hexValue? c)
    if count < 3 then some { r with mode := .unit rev high (count + 1) code }
    else return { r with mode := ← endUnit? rev high code }

def Reader.finish? (r : Reader) : Option (List Lexeme) :=
  match r.mode with
  | .idle => some r.done.reverse
  | .bare rev => (bareLexeme? rev.reverse).map fun l => (l :: r.done).reverse
  | _ => none

def lexemes? (cs : List Char) : Option (List Lexeme) :=
  (cs.foldlM Reader.step? {}) >>= Reader.finish?

end StaticSite.Json
