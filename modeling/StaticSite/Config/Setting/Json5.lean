import StaticSite.Config.Setting
import StaticSite.Text.Hex
import StaticSite.Text.Space

/-! Settings in JSON5: JSON with comments, names as keys, more spellings of strings and numbers, and
a comma after the last member. -/

namespace StaticSite.Json5

def isLineEnd (c : Char) : Bool := c = '\n' || c = '\r' || c = '\u2028' || c = '\u2029'

def isSpace (c : Char) : Bool := c = '\ufeff' || (Text.isSpace c && c ≠ '\u0085')

def afterComment? : List Char → Option (List Char)
  | [] => none
  | '*' :: '/' :: cs => some cs
  | _ :: cs => afterComment? cs

def skip : Nat → List Char → List Char
  | 0, cs => cs
  | fuel + 1, cs =>
    match cs.dropWhile isSpace with
    | '/' :: '/' :: cs => skip fuel (cs.dropWhile fun c => !isLineEnd c)
    | '/' :: '*' :: cs => ((afterComment? cs).map (skip fuel)).getD ('/' :: '*' :: cs)
    | cs => cs

def escaped? (c : Char) : Option Char :=
  if c = 'b' then some '\x08'
  else if c = 'f' then some '\x0c'
  else if c = 'n' then some '\n'
  else if c = 'r' then some '\r'
  else if c = 't' then some '\t'
  else if c = 'v' then some '\x0b'
  else if c = '0' then some '\x00'
  else if c.isDigit || c = 'x' || c = 'u' then none
  else some c

def pair? (high low : List Char) : Option Char := do
  let h ← high.foldlM (fun n d => (Text.hexValue? d).map (n * 16 + ·)) 0
  let l ← low.foldlM (fun n d => (Text.hexValue? d).map (n * 16 + ·)) 0
  if 0xD800 ≤ h ∧ h < 0xDC00 ∧ 0xDC00 ≤ l ∧ l < 0xE000 then
    some (Char.ofNat ((h - 0xD800) * 0x400 + (l - 0xDC00) + 0x10000))
  else none

def string? (quote : Char) (rev : List Char) : List Char → Option (String × List Char)
  | [] => none
  | '\\' :: 'x' :: a :: b :: cs => do string? quote ((← Text.charOfHex? [a, b]) :: rev) cs
  | '\\' :: 'u' :: a :: b :: c :: d :: cs =>
    match Text.charOfHex? [a, b, c, d], cs with
    | some x, cs => string? quote (x :: rev) cs
    | none, '\\' :: 'u' :: e :: f :: g :: h :: cs => do
      string? quote ((← pair? [a, b, c, d] [e, f, g, h]) :: rev) cs
    | none, _ => none
  | '\\' :: '\r' :: '\n' :: cs => string? quote rev cs
  | '\\' :: c :: cs =>
    if isLineEnd c then string? quote rev cs else do string? quote ((← escaped? c) :: rev) cs
  | c :: cs =>
    if c = quote then some (String.ofList rev.reverse, cs)
    else if isLineEnd c || c = '\\' then none
    else string? quote (c :: rev) cs

def isNameStart (c : Char) : Bool :=
  c.isAlpha || c = '$' || c = '_' || (c.toNat ≥ 0x80 && !isSpace c)

def isNameChar (c : Char) : Bool := isNameStart c || c.isDigit

def name? (rev : List Char) : List Char → Option (String × List Char)
  | '\\' :: 'u' :: a :: b :: c :: d :: cs => do
    name? ((← Text.charOfHex? [a, b, c, d]) :: rev) cs
  | [] => some (String.ofList rev.reverse, [])
  | c :: cs =>
    if isNameChar c then name? (c :: rev) cs else some (String.ofList rev.reverse, c :: cs)

def key? : List Char → Option (String × List Char)
  | [] => none
  | c :: cs =>
    if c = '"' || c = '\x27' then string? c [] cs
    else if isNameStart c || c = '\\' then
      (name? [] (c :: cs)).filter fun r => !r.1.isEmpty
    else none

def isWordChar (c : Char) : Bool := isNameChar c || c = '.' || c = '+' || c = '-'

def integer? (negative : Bool) (n : Nat) : Option Setting :=
  let i : Int := if negative then -n else n
  if -0x8000000000000000 ≤ i ∧ i < 0x8000000000000000 then some (.integer i) else none

def decimal? (negative : Bool) (cs : List Char) : Option Setting := do
  let whole := cs.takeWhile Char.isDigit
  if whole.length > 1 && whole.head? = some '0' then failure
  if whole.length = cs.length then integer? negative (← Number.digits? whole)
  else
    match ← Number.decimal? negative cs with
    | .finite x => return .float (.finite x)
    | _ => failure

def word? (cs : List Char) : Option Setting :=
  let word := String.ofList cs
  if word = "null" then some .nothing
  else if word = "true" then some (.bool true)
  else if word = "false" then some (.bool false)
  else
    let (negative, ds) := Number.sign cs
    match ds with
    | ['I', 'n', 'f', 'i', 'n', 'i', 't', 'y'] => some (.float (.infinite negative))
    | ['N', 'a', 'N'] => some (.float .nan)
    | '0' :: x :: ds =>
      if x = 'x' || x = 'X' then do
        if ds.isEmpty then failure
        let n ← ds.foldlM (fun n d => (Text.hexValue? d).map (n * 16 + ·)) 0
        integer? negative n
      else decimal? negative ('0' :: x :: ds)
    | _ => decimal? negative ds

mutual

def value? : Nat → List Char → Option (Setting × List Char)
  | 0, _ => none
  | fuel + 1, cs =>
    match skip (cs.length + 1) cs with
    | '[' :: cs => items? fuel [] cs
    | '{' :: cs => members? fuel [] cs
    | [] => none
    | c :: cs =>
      if c = '"' || c = '\x27' then (string? c [] cs).map fun (s, cs) => (.text s, cs)
      else
        let (word, rest) := (c :: cs).span isWordChar
        (word? word).map fun s => (s, rest)

def items? : Nat → List Setting → List Char → Option (Setting × List Char)
  | 0, _, _ => none
  | fuel + 1, rev, cs =>
    match skip (cs.length + 1) cs with
    | ']' :: cs => some (.list rev.reverse, cs)
    | cs => do
      let (s, cs) ← value? fuel cs
      match skip (cs.length + 1) cs with
      | ',' :: cs => items? fuel (s :: rev) cs
      | ']' :: cs => some (.list (s :: rev).reverse, cs)
      | _ => none

def members? : Nat → List (String × Setting) → List Char → Option (Setting × List Char)
  | 0, _, _ => none
  | fuel + 1, members, cs =>
    match skip (cs.length + 1) cs with
    | '}' :: cs => some (.table members, cs)
    | cs => do
      let (k, cs) ← key? cs
      match skip (cs.length + 1) cs with
      | ':' :: cs => do
        let (s, cs) ← value? fuel cs
        let members := Setting.changeMember k (fun _ => s) members
        match skip (cs.length + 1) cs with
        | ',' :: cs => members? fuel members cs
        | '}' :: cs => some (.table members, cs)
        | _ => none
      | _ => none

end

end StaticSite.Json5

namespace StaticSite.Setting

def ofJson5? (content : String) : Option Setting := do
  let cs := content.toList
  let (s, rest) ← Json5.value? (cs.length + 1) cs
  if (Json5.skip (rest.length + 1) rest).isEmpty then some s else none

end StaticSite.Setting
