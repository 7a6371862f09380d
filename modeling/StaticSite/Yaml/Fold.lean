import StaticSite.Text.Hex
import StaticSite.Yaml.Cursor

/-! Scalars of YAML text: how their lines become one text. -/

namespace StaticSite.Yaml

/-- Text being read, last character first, with what has been seen since its last character: blanks
on the same line, or line breaks and the blank lines after the first of them. -/
structure Fold where
  rev : List Char := []
  blanks : List Char := []
  broken : Bool := false
  first : List Char := []
  more : List Char := []

namespace Fold

def push (f : Fold) (c : Char) : Fold := { f with rev := c :: f.rev }

def join (f : Fold) : Fold :=
  let between :=
    if f.broken then
      if f.first.head? = some '\n' then if f.more.isEmpty then [' '] else f.more
      else f.first ++ f.more
    else f.blanks
  { rev := between.reverse ++ f.rev }

def blank (f : Fold) (c : Char) : Fold :=
  if f.broken then f else { f with blanks := f.blanks ++ [c] }

def lineBreak (f : Fold) (cs : List Char) : Fold :=
  if f.broken then { f with more := f.more ++ cs }
  else { f with blanks := [], broken := true, first := cs }

def text (f : Fold) : String := String.ofList f.rev.reverse

end Fold

def isFlowMark (c : Char) : Bool := c = ',' || c = '[' || c = ']' || c = '{' || c = '}'

def escapes : List (Char × Char) :=
  [('0', '\x00'), ('a', '\x07'), ('b', '\x08'), ('t', '\t'), ('\t', '\t'), ('n', '\n'),
   ('v', '\x0b'), ('f', '\x0c'), ('r', '\r'), ('e', '\x1b'), (' ', ' '), ('"', '"'), ('/', '/'),
   ('\\', '\\'), ('N', '\x85'), ('_', '\u00a0'), ('L', '\u2028'), ('P', '\u2029')]

def codeLength (c : Char) : Nat :=
  if c = 'x' then 2 else if c = 'u' then 4 else if c = 'U' then 8 else 0

def escape? (cs : List Char) : Option (Char × Nat) :=
  match cs with
  | _ :: c :: rest =>
    match escapes.lookup c with
    | some d => some (d, 2)
    | none =>
      let n := codeLength c
      let digits := rest.take n
      if n = 0 || digits.length ≠ n then none
      else (Text.charOfHex? digits).map fun d => (d, n + 2)
  | _ => none

inductive Chomp
  | strip
  | clip
  | keep
  deriving DecidableEq

def blockHeader? (cur : Cursor) : Option (Chomp × Option Nat × Cursor) :=
  let chomp? : Char → Option Chomp := fun c =>
    if c = '+' then some .keep else if c = '-' then some .strip else none
  let digit? : Char → Option Nat := fun c => if c.isDigit then some (c.toNat - '0'.toNat) else none
  let first := cur.peek.bind chomp?
  let cur := if first.isSome then cur.skip else cur
  let digit := cur.peek.bind digit?
  let cur := if digit.isSome then cur.skip else cur
  let second := if first.isNone && digit.isSome then cur.peek.bind chomp? else none
  let cur := if second.isSome then cur.skip else cur
  if digit = some 0 then none else some ((first <|> second).getD .clip, digit, cur)

end StaticSite.Yaml
