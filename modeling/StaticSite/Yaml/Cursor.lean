namespace StaticSite.Yaml

/-- The versions of the language. The later one breaks lines at fewer characters, lets keys and
values be left out in more places, and reads fewer words as something else than text. -/
inductive Version
  | yaml11
  | yaml12
  deriving DecidableEq

def Version.isBreak (v : Version) (c : Char) : Bool :=
  c = '\n' || c = '\r' || (v = .yaml11 && (c = '\x85' || c = '\u2028' || c = '\u2029'))

def isBlank (c : Char) : Bool := c = ' ' || c = '\t'

structure Cursor where
  rest : List Char
  index : Nat := 0
  line : Nat := 0
  column : Nat := 0

namespace Cursor

def peek (cur : Cursor) : Option Char := cur.rest.head?

def peekAt (n : Nat) (cur : Cursor) : Option Char := cur.rest[n]?

def atEnd (cur : Cursor) : Bool := cur.rest.isEmpty

def at? (p : Char → Bool) (cur : Cursor) : Bool := cur.peek.any p

def isChar (c : Char) (cur : Cursor) : Bool := cur.peek = some c

def isBreak (v : Version) (cur : Cursor) : Bool := cur.at? v.isBreak

def isBlank (cur : Cursor) : Bool := cur.at? Yaml.isBlank

def endsLine (v : Version) (cur : Cursor) : Bool := cur.peek.all v.isBreak

def isGapAt (v : Version) (n : Nat) (cur : Cursor) : Bool :=
  (cur.peekAt n).all fun c => Yaml.isBlank c || v.isBreak c

def isGap (v : Version) (cur : Cursor) : Bool := cur.isGapAt v 0

def skip (cur : Cursor) : Cursor :=
  { cur with rest := cur.rest.drop 1, index := cur.index + 1, column := cur.column + 1 }

def skips (n : Nat) (cur : Cursor) : Cursor :=
  { cur with rest := cur.rest.drop n, index := cur.index + n, column := cur.column + n }

def readLine (cur : Cursor) : List Char × Cursor :=
  match cur.rest with
  | '\r' :: '\n' :: cs => (['\n'], { rest := cs, index := cur.index + 2, line := cur.line + 1 })
  | c :: cs =>
    (if c = '\u2028' || c = '\u2029' then [c] else ['\n'],
      { rest := cs, index := cur.index + 1, line := cur.line + 1 })
  | [] => ([], cur)

def isMarker (v : Version) (mark : Char) (cur : Cursor) : Bool :=
  cur.column = 0 && cur.peekAt 0 = some mark && cur.peekAt 1 = some mark &&
    cur.peekAt 2 = some mark && cur.isGapAt v 3

def isDocumentMarker (v : Version) (cur : Cursor) : Bool :=
  cur.isMarker v '-' || cur.isMarker v '.'

def takeWhile (p : Char → Bool) (cur : Cursor) : List Char × Cursor :=
  let cs := cur.rest.takeWhile p
  (cs, cur.skips cs.length)

def toLineEnd? (v : Version) (cur : Cursor) : Option Cursor :=
  let cur := (cur.takeWhile Yaml.isBlank).2
  let cur := if cur.isChar '#' then (cur.takeWhile fun c => !v.isBreak c).2 else cur
  if cur.endsLine v then some cur else none

end Cursor

end StaticSite.Yaml
