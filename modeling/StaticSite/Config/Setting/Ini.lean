import StaticSite.Config.Setting
import StaticSite.Text.Hex
import StaticSite.Text.Space

namespace StaticSite.Ini

structure Section where
  name : Option String := none
  entries : List (String × String) := []

def escaped (c : Char) : Char :=
  if c = '0' then '\x00'
  else if c = 'a' then '\x07'
  else if c = 'b' then '\x08'
  else if c = 't' then '\t'
  else if c = 'r' then '\r'
  else if c = 'n' then '\n'
  else c

/-- Text up to a character that ends it, or to the end of the file where that may end it. A
backslash at the end of a line joins the next line to it. -/
def until? (ends : Char → Bool) (last : Bool) (rev : List Char) :
    List Char → Option (List Char × List Char)
  | [] => if last then some (rev.reverse, []) else none
  | ['\\'] => if last then some (('\\' :: rev).reverse, []) else none
  | '\\' :: '\n' :: cs => until? ends last rev cs
  | '\\' :: 'x' :: a :: b :: c :: d :: cs => do
    until? ends last ((← Text.charOfHex? [a, b, c, d]) :: rev) cs
  | '\\' :: c :: cs => if c = 'x' then none else until? ends last (escaped c :: rev) cs
  | c :: cs => if ends c then some (rev.reverse, c :: cs) else until? ends last (c :: rev) cs

def isLineEnd (c : Char) : Bool := c = '\n' || c = '\r'

/-- A value up to the end of its line: parts in quotes, then plain text, which is trimmed. Only
after a part in quotes does white space at the start count. -/
def value? : Nat → Bool → List Char → Option (List Char × List Char)
  | 0, _, _ => none
  | _ + 1, _, [] => some ([], [])
  | fuel + 1, start, c :: cs =>
    if c = '"' || c = '\x27' then do
      let (part, rest) ← until? (· = c) false [] cs
      let (more, rest) ← value? fuel false (rest.drop 1)
      return (part ++ more, rest)
    else do
      let (plain, rest) ← until? isLineEnd true [] (c :: cs)
      return (if start then Text.trimChars plain else Text.trimRight plain, rest)

def skipSpace : Bool → List Char → Bool × List Char
  | start, [] => (start, [])
  | start, c :: cs => if Text.isSpace c then skipSpace (c = '\n') cs else (start, c :: cs)

def addEntry (key value : String) : List Section → List Section
  | [] => [{ entries := [(key, value)] }]
  | s :: rev => { s with entries := s.entries ++ [(key, value)] } :: rev

def sections? : Nat → Bool → String → List Section → List Char → Option (List Section)
  | 0, _, _, _, _ => none
  | fuel + 1, start, key, rev, cs =>
    let (start, cs) := skipSpace start cs
    match cs with
    | [] => some rev.reverse
    | ';' :: cs | '#' :: cs =>
      if start then sections? fuel true key rev ((cs.dropWhile (· ≠ '\n')).drop 1) else none
    | '[' :: cs => do
      let (name, rest) ← until? (· = ']') false [] cs
      let name := String.ofList (Text.trimChars name)
      sections? fuel false key ({ name := some name } :: rev) (rest.drop 1)
    | '=' :: cs | ':' :: cs => do
      if key.isEmpty then failure
      let cs := cs.dropWhile fun c => Text.isSpace c && !isLineEnd c
      let (value, rest) ← value? (cs.length + 1) true cs
      sections? fuel false "" (addEntry key (String.ofList value) rev) rest
    | cs => do
      let (name, rest) ← until? (fun c => c = '=' || c = ':') false [] cs
      sections? fuel false (String.ofList (Text.trimChars name)) rev rest

end StaticSite.Ini

namespace StaticSite.Setting

def ofEntries (entries : List (String × String)) (base : List (String × Setting)) :
    List (String × Setting) :=
  entries.foldl (fun ms (k, v) => changeMember k (fun _ => text v) ms) base

def ofIni? (content : String) : Option Setting := do
  let cs := content.toList
  let sections ← Ini.sections? (2 * cs.length + 2) true "" [{}] cs
  return table <| sections.foldl (fun ms s =>
    match s.name with
    | none => ofEntries s.entries ms
    | some name => changeMember name (fun _ => table (ofEntries s.entries [])) ms) []

end StaticSite.Setting
