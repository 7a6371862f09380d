import StaticSite.Config.Setting
import StaticSite.Text.Hex

/-! Settings in RON, where records, tuples, optional values and single characters have spellings of
their own. -/

namespace StaticSite.Ron

def isSpace (c : Char) : Bool :=
  c = ' ' || c = '\t' || c = '\n' || c = '\r' || c = '\x0b' || c = '\x0c' || c = '\u0085' ||
    c = '\u200e' || c = '\u200f' || c = '\u2028' || c = '\u2029'

def afterComment? : Nat → List Char → Option (List Char)
  | _, [] => none
  | depth, '/' :: '*' :: cs => afterComment? (depth + 1) cs
  | 0, '*' :: '/' :: cs => some cs
  | depth + 1, '*' :: '/' :: cs => afterComment? depth cs
  | depth, _ :: cs => afterComment? depth cs

def skip : Nat → List Char → List Char
  | 0, cs => cs
  | fuel + 1, cs =>
    match cs.dropWhile isSpace with
    | '/' :: '/' :: cs => skip fuel (cs.dropWhile (· ≠ '\n'))
    | '/' :: '*' :: cs => ((afterComment? 0 cs).map (skip fuel)).getD ('/' :: '*' :: cs)
    | cs => cs

def gap (cs : List Char) : List Char := skip (cs.length + 1) cs

def escaped? : List Char → Option (Char × List Char)
  | 'x' :: a :: b :: cs => do
    let c ← Text.charOfHex? [a, b]
    if c.toNat < 0x80 then some (c, cs) else none
  | 'u' :: '\x7b' :: cs =>
    let ds := cs.takeWhile (· ≠ '\x7d')
    if ds.isEmpty || ds.length > 6 || ds.length = cs.length then none
    else (Text.charOfHex? ds).map fun c => (c, cs.drop (ds.length + 1))
  | c :: cs =>
    if c = 'n' then some ('\n', cs)
    else if c = 'r' then some ('\r', cs)
    else if c = 't' then some ('\t', cs)
    else if c = '0' then some ('\x00', cs)
    else if c = '\\' || c = '"' || c = '\x27' then some (c, cs)
    else none
  | [] => none

def string? : Nat → List Char → List Char → Option (String × List Char)
  | 0, _, _ => none
  | _ + 1, _, [] => none
  | _ + 1, rev, '"' :: cs => some (String.ofList rev.reverse, cs)
  | fuel + 1, rev, '\\' :: cs => do
    let (c, cs) ← escaped? cs
    string? fuel (c :: rev) cs
  | fuel + 1, rev, c :: cs => string? fuel (c :: rev) cs

def raw? (ending : List Char) (rev : List Char) : List Char → Option (String × List Char)
  | [] => none
  | c :: cs =>
    if ('"' :: ending).isPrefixOf (c :: cs) then
      some (String.ofList rev.reverse, cs.drop ending.length)
    else raw? ending (c :: rev) cs

def quoted? : List Char → Option (String × List Char)
  | '"' :: cs => string? (cs.length + 1) [] cs
  | 'r' :: cs =>
    let signs := cs.takeWhile (· = '#')
    match cs.drop signs.length with
    | '"' :: cs => raw? signs [] cs
    | _ => none
  | _ => none

def char? : List Char → Option (Char × List Char)
  | '\x27' :: '\\' :: cs => do
    let (c, cs) ← escaped? cs
    if cs.head? = some '\x27' then some (c, cs.drop 1) else none
  | '\x27' :: c :: '\x27' :: cs => if c = '\x27' then none else some (c, cs)
  | _ => none

def isNameStart (c : Char) : Bool :=
  c.isAlpha || c = '_' || (c.toNat ≥ 0x80 && !isSpace c)

def isNameChar (c : Char) : Bool := isNameStart c || c.isDigit

def name? : List Char → Option (String × List Char)
  | 'r' :: '#' :: cs =>
    let name := cs.takeWhile fun c => isNameChar c || c = '.' || c = '+' || c = '-'
    if name.isEmpty then none else some (String.ofList name, cs.drop name.length)
  | c :: cs =>
    if isNameStart c then
      let (name, rest) := (c :: cs).span isNameChar
      some (String.ofList name, rest)
    else none
  | [] => none

def nat? (base : Nat) (cs : List Char) : Option Nat := do
  let ds := cs.filter (· ≠ '_')
  if ds.isEmpty || cs.head? = some '_' then failure
  ds.foldlM (fun n d => do
    let k ← Text.hexValue? d
    if k < base then some (n * base + k) else none) 0

def based? : List Char → Option Nat
  | '0' :: 'x' :: ds => nat? 16 ds
  | '0' :: 'o' :: ds => nat? 8 ds
  | '0' :: 'b' :: ds => nat? 2 ds
  | ds => nat? 10 ds

def integer? (negative signed : Bool) (n : Nat) : Option Setting :=
  if negative then if n ≤ 0x8000000000000000 then some (.integer (-n)) else none
  else if n < (if signed then 0x8000000000000000 else 0x10000000000000000) then some (.integer n)
  else none

def number? (cs : List Char) : Option Setting :=
  let (negative, ds) := Number.sign cs
  if ds = ['i', 'n', 'f'] then some (.float (.infinite negative))
  else if ds = ['N', 'a', 'N'] then some (.float .nan)
  else
    match based? ds with
    | some n => integer? negative (ds.length < cs.length) n
    | none =>
      if ds.head? = some '_' then none
      else (Number.decimal? negative (ds.filter (· ≠ '_'))).map .float

def isNumberChar (c : Char) : Bool := c.isAlphanum || c = '.' || c = '+' || c = '-' || c = '_'

def isRecord (cs : List Char) : Bool :=
  match name? (gap cs) with
  | some (_, cs) => (gap cs).head? = some ':'
  | none => false

mutual

def value? : Nat → List Char → Option (Setting × List Char)
  | 0, _ => none
  | fuel + 1, cs =>
    match gap cs with
    | '(' :: ')' :: cs => some (.nothing, cs)
    | '(' :: cs => group? fuel cs
    | '[' :: cs => items? fuel ']' [] cs
    | '\x7b' :: cs => members? fuel [] cs
    | cs =>
      match quoted? cs, char? cs with
      | some (s, cs), _ => some (.text s, cs)
      | none, some (c, cs) => some (.text c.toString, cs)
      | none, none =>
        match name? cs with
        | some (name, cs) => named? fuel name cs
        | none =>
          let (word, cs) := cs.span isNumberChar
          (number? word).map fun s => (s, cs)

def named? : Nat → String → List Char → Option (Setting × List Char)
  | 0, _, _ => none
  | fuel + 1, name, cs =>
    if name = "true" then some (.bool true, cs)
    else if name = "false" then some (.bool false, cs)
    else if name = "None" then some (.nothing, cs)
    else if name = "inf" then some (.float (.infinite false), cs)
    else if name = "NaN" then some (.float .nan, cs)
    else
      match gap cs with
      | '(' :: cs =>
        if name = "Some" then do
          let (s, cs) ← value? fuel cs
          let cs := match gap cs with
            | ',' :: cs => gap cs
            | cs => cs
          match cs with
          | ')' :: cs => some (s, cs)
          | _ => none
        else group? fuel cs
      | cs => if name = "Some" then none else some (.nothing, cs)

def group? : Nat → List Char → Option (Setting × List Char)
  | 0, _ => none
  | fuel + 1, cs => if isRecord cs then fields? fuel [] cs else items? fuel ')' [] cs

def items? : Nat → Char → List Setting → List Char → Option (Setting × List Char)
  | 0, _, _, _ => none
  | fuel + 1, ending, rev, cs =>
    match gap cs with
    | [] => none
    | c :: cs =>
      if c = ending then some (.list rev.reverse, cs)
      else do
        let (s, cs) ← value? fuel (c :: cs)
        match gap cs with
        | ',' :: cs => items? fuel ending (s :: rev) cs
        | c :: cs => if c = ending then some (.list (s :: rev).reverse, cs) else none
        | [] => none

def fields? : Nat → List (String × Setting) → List Char → Option (Setting × List Char)
  | 0, _, _ => none
  | fuel + 1, fields, cs =>
    match gap cs with
    | ')' :: cs => some (.table fields, cs)
    | cs => do
      let (k, cs) ← name? cs
      match gap cs with
      | ':' :: cs => do
        let (s, cs) ← value? fuel cs
        let fields := Setting.changeMember k (fun _ => s) fields
        match gap cs with
        | ',' :: cs => fields? fuel fields cs
        | ')' :: cs => some (.table fields, cs)
        | _ => none
      | _ => none

def members? : Nat → List (String × Setting) → List Char → Option (Setting × List Char)
  | 0, _, _ => none
  | fuel + 1, members, cs =>
    match gap cs with
    | '\x7d' :: cs => some (.table members, cs)
    | cs => do
      let (k, cs) ← (quoted? cs).orElse fun _ => (char? cs).map fun (c, cs) => (c.toString, cs)
      match gap cs with
      | ':' :: cs => do
        let (s, cs) ← value? fuel cs
        let members := Setting.changeMember k (fun _ => s) members
        match gap cs with
        | ',' :: cs => members? fuel members cs
        | '\x7d' :: cs => some (.table members, cs)
        | _ => none
      | _ => none

end

end StaticSite.Ron

namespace StaticSite.Setting

def ofRon? (content : String) : Option Setting := do
  let cs := content.toList
  let (s, rest) ← Ron.value? (2 * cs.length + 4) cs
  if (Ron.gap rest).isEmpty then some s else none

end StaticSite.Setting
