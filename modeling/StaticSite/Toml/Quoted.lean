import StaticSite.Text.Hex
import StaticSite.Toml.Version

namespace StaticSite.Toml

def shortEscape? (v : Version) (c : Char) : Option Char :=
  if c = 'b' then some '\x08'
  else if c = 't' then some '\t'
  else if c = 'n' then some '\n'
  else if c = 'f' then some '\x0c'
  else if c = 'r' then some '\r'
  else if c = 'e' && v = .toml11 then some '\x1b'
  else if c = '"' || c = '\\' then some c
  else none

def basic? (v : Version) (rev : List Char) : List Char → Option (String × List Char)
  | [] => none
  | '"' :: cs => some (String.ofList rev.reverse, cs)
  | '\\' :: 'u' :: a :: b :: c :: d :: cs => do
    basic? v ((← Text.charOfHex? [a, b, c, d]) :: rev) cs
  | '\\' :: 'U' :: a :: b :: c :: d :: e :: f :: g :: h :: cs => do
    basic? v ((← Text.charOfHex? [a, b, c, d, e, f, g, h]) :: rev) cs
  | '\\' :: 'x' :: a :: b :: cs =>
    if v = .toml11 then do basic? v ((← Text.charOfHex? [a, b]) :: rev) cs else none
  | '\\' :: c :: cs => do basic? v ((← shortEscape? v c) :: rev) cs
  | c :: cs => if c = '\n' || c = '\\' then none else basic? v (c :: rev) cs

def literal? (rev : List Char) : List Char → Option (String × List Char)
  | [] => none
  | c :: cs =>
    if c = '\x27' then some (String.ofList rev.reverse, cs)
    else if c = '\n' then none
    else literal? (c :: rev) cs

def isBlank (c : Char) : Bool := c = ' ' || c = '\t' || c = '\r'

def endsLine : List Char → Bool
  | [] => false
  | c :: cs => c = '\n' || (isBlank c && endsLine cs)

/-- The rest of a string in three double quotes; `gap` while the white space after a backslash at
the end of a line is being dropped. Up to two quotes may stand just before the closing three. -/
def longBasic? (v : Version) (gap : Bool) (rev : List Char) :
    List Char → Option (String × List Char)
  | [] => none
  | '"' :: '"' :: '"' :: '"' :: '"' :: cs => some (String.ofList ('"' :: '"' :: rev).reverse, cs)
  | '"' :: '"' :: '"' :: '"' :: cs => some (String.ofList ('"' :: rev).reverse, cs)
  | '"' :: '"' :: '"' :: cs => some (String.ofList rev.reverse, cs)
  | '\\' :: 'u' :: a :: b :: c :: d :: cs => do
    longBasic? v false ((← Text.charOfHex? [a, b, c, d]) :: rev) cs
  | '\\' :: 'U' :: a :: b :: c :: d :: e :: f :: g :: h :: cs => do
    longBasic? v false ((← Text.charOfHex? [a, b, c, d, e, f, g, h]) :: rev) cs
  | '\\' :: 'x' :: a :: b :: cs =>
    if v = .toml11 then do longBasic? v false ((← Text.charOfHex? [a, b]) :: rev) cs else none
  | '\\' :: c :: cs =>
    if endsLine (c :: cs) then longBasic? v true rev cs
    else do longBasic? v false ((← shortEscape? v c) :: rev) cs
  | c :: cs =>
    if gap && (isBlank c || c = '\n') then longBasic? v true rev cs
    else if c = '\\' then none
    else longBasic? v false (c :: rev) cs

def longLiteral? (rev : List Char) : List Char → Option (String × List Char)
  | [] => none
  | '\x27' :: '\x27' :: '\x27' :: '\x27' :: '\x27' :: cs =>
    some (String.ofList ('\x27' :: '\x27' :: rev).reverse, cs)
  | '\x27' :: '\x27' :: '\x27' :: '\x27' :: cs => some (String.ofList ('\x27' :: rev).reverse, cs)
  | '\x27' :: '\x27' :: '\x27' :: cs => some (String.ofList rev.reverse, cs)
  | c :: cs => longLiteral? (c :: rev) cs

def afterOpening : List Char → List Char
  | '\n' :: cs | '\r' :: '\n' :: cs => cs
  | cs => cs

def quoted? (v : Version) : List Char → Option (String × List Char)
  | '"' :: '"' :: '"' :: cs => longBasic? v false [] (afterOpening cs)
  | '\x27' :: '\x27' :: '\x27' :: cs => longLiteral? [] (afterOpening cs)
  | '"' :: cs => basic? v [] cs
  | '\x27' :: cs => literal? [] cs
  | _ => none

end StaticSite.Toml
