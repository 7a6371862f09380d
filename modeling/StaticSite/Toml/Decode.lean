import StaticSite.Toml.Quoted
import StaticSite.Toml.Scalar
import StaticSite.Toml.Table

namespace StaticSite.Toml

def skipBlanks (cs : List Char) : List Char := cs.dropWhile isBlank

def isBareKey (c : Char) : Bool := c.isAlphanum || c = '_' || c = '-'

def keyPart? (v : Version) : List Char → Option (String × List Char)
  | '"' :: cs => basic? v [] cs
  | cs =>
    match cs with
    | '\x27' :: rest => literal? [] rest
    | _ =>
      let bare := cs.takeWhile isBareKey
      if bare.isEmpty then none else some (String.ofList bare, cs.drop bare.length)

def key? (v : Version) : Nat → List Char → Option (List String × List Char)
  | 0, _ => none
  | fuel + 1, cs => do
    let (part, cs) ← keyPart? v (skipBlanks cs)
    match skipBlanks cs with
    | '.' :: rest => do
      let (parts, rest) ← key? v fuel rest
      return (part :: parts, rest)
    | rest => return ([part], rest)

def skipComment (cs : List Char) : List Char :=
  match cs with
  | '#' :: _ => cs.dropWhile (· ≠ '\n')
  | _ => cs

def skipLines : Nat → List Char → List Char
  | 0, cs => cs
  | fuel + 1, cs =>
    match skipBlanks cs with
    | '\n' :: rest => skipLines fuel rest
    | '#' :: rest => skipLines fuel (rest.dropWhile (· ≠ '\n'))
    | rest => rest

def skipInline (v : Version) (cs : List Char) : List Char :=
  match v with
  | .toml10 => skipBlanks cs
  | .toml11 => skipLines (cs.length + 1) cs

def isBare (c : Char) : Bool :=
  !(isBlank c || c = '\n' || c = ',' || c = ']' || c = '}' || c = '#' || c = '[' || c = '{' ||
    c = '=' || c = '"' || c = '\x27')

/-- The longest bare word; a date and a time with one space between them are one word. -/
def bareWord (cs : List Char) : List Char × List Char :=
  let (word, rest) := cs.span isBare
  match Date.read? word, rest with
  | some (_, []), ' ' :: d :: rest' =>
    if d.isDigit then
      let (time, rest) := (d :: rest').span isBare
      (word ++ ' ' :: time, rest)
    else (word, rest)
  | _, _ => (word, rest)

mutual

def value? (v : Version) : Nat → Nat → List Char → Option (Item × List Char)
  | 0, _, _ => none
  | fuel + 1, depth, cs =>
    match cs with
    | '[' :: rest => if depth < v.nestingLimit then array? v fuel (depth + 1) [] rest else none
    | '{' :: rest =>
      if depth < v.nestingLimit then
        match skipInline v rest with
        | '}' :: rest => some (.table [], rest)
        | rest => inline? v fuel (depth + 1) {} rest
      else none
    | _ =>
      match quoted? v cs with
      | some (s, rest) => some (.string s, rest)
      | none => do
        let (word, rest) := bareWord cs
        return (← bare? v word, rest)

def array? (v : Version) : Nat → Nat → List Item → List Char → Option (Item × List Char)
  | 0, _, _, _ => none
  | fuel + 1, depth, rev, cs =>
    match skipLines (cs.length + 1) cs with
    | ']' :: rest => some (.array rev.reverse, rest)
    | cs => do
      let (i, cs) ← value? v fuel depth cs
      match skipLines (cs.length + 1) cs with
      | ',' :: rest => array? v fuel depth (i :: rev) rest
      | ']' :: rest => some (.array (i :: rev).reverse, rest)
      | _ => none

def inline? (v : Version) : Nat → Nat → Table → List Char → Option (Item × List Char)
  | 0, _, _, _ => none
  | fuel + 1, depth, t, cs => do
    let (path, cs) ← key? v v.keyLimit cs
    match skipInline v cs with
    | '=' :: rest => do
      let (i, cs) ← value? v fuel depth (skipInline v rest)
      let t ← t.defineAt v path i
      match skipInline v cs with
      | ',' :: rest =>
        match skipInline v rest with
        | '}' :: rest => if v = .toml11 then some (.table (memberItems t.members), rest) else none
        | rest => inline? v fuel depth t rest
      | '}' :: rest => some (.table (memberItems t.members), rest)
      | _ => none
    | _ => none

end

def endLine? (cs : List Char) : Option (List Char) :=
  match skipComment (skipBlanks cs) with
  | [] => some []
  | '\n' :: rest => some rest
  | _ => none

def line? (v : Version) (fuel : Nat) (d : Draft) (cs : List Char) : Option (Draft × List Char) :=
  match skipBlanks cs with
  | [] => some (d, [])
  | '\n' :: rest => some (d, rest)
  | '#' :: rest => do return (d, ← endLine? ('#' :: rest))
  | '[' :: '[' :: rest => do
    let (path, rest) ← key? v v.keyLimit rest
    match rest with
    | ']' :: ']' :: rest => return (← d.startRow path, ← endLine? rest)
    | _ => none
  | '[' :: rest => do
    let (path, rest) ← key? v v.keyLimit rest
    match rest with
    | ']' :: rest => return (← d.startTable path, ← endLine? rest)
    | _ => none
  | cs => do
    let (path, cs) ← key? v v.keyLimit cs
    match cs with
    | '=' :: rest => do
      let (i, cs) ← value? v fuel 0 (skipBlanks rest)
      return (← d.define v path i, ← endLine? cs)
    | _ => none

def document? (v : Version) (depth : Nat) : Nat → Draft → List Char → Option Draft
  | 0, _, _ => none
  | fuel + 1, d, cs =>
    match cs with
    | [] => some d
    | _ => do
      let (d, cs) ← line? v depth d cs
      document? v depth fuel d cs

/-- The text with its line ends as line feeds, or as they are in the later version; `none` if a
control character or a lone carriage return is there. -/
def plain? (v : Version) : List Char → Option (List Char)
  | [] => some []
  | '\r' :: '\n' :: cs =>
    (plain? v cs).map (if v = .toml10 then ('\n' :: ·) else ('\r' :: '\n' :: ·))
  | c :: cs =>
    if (c.toNat < 0x20 && c ≠ '\t' && c ≠ '\n') || c = '\x7f' then none
    else (plain? v cs).map (c :: ·)

def decode? (v : Version) (text : String) : Option (List (String × Item)) := do
  let cs := match text.toList with
    | '\ufeff' :: cs => cs
    | cs => cs
  let cs ← plain? v cs
  let d ← document? v (2 * cs.length + 8) (cs.length + 1) {} cs
  let root ← d.settle
  return memberItems root.members

def datum? (text : String) : Option Datum :=
  (decode? .toml10 text).map fun ms => .map (memberData ms)

end StaticSite.Toml
