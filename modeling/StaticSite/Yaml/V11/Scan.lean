import StaticSite.Yaml.Token
import StaticSite.Yaml.Uri
import StaticSite.Yaml.V11.Text

/-! Reading the tokens of YAML 1.1. Indentation becomes opening and closing tokens, and a key is
recognized when the colon after it is met: its token then goes in where the key began. -/

namespace StaticSite.Yaml.V11

structure Scanner where
  cursor : Cursor
  tokens : Array Token := #[]
  indent : Int := -1
  indents : List Int := []
  keyAllowed : Bool := true
  keys : List (Option KeyStart) := [none]

namespace Scanner

def flow (s : Scanner) : Bool := s.keys.length > 1

def emit (t : Token) (s : Scanner) : Scanner := { s with tokens := s.tokens.push t }

def insertAt (n : Nat) (t : Token) (s : Scanner) : Scanner :=
  { s with tokens := s.tokens.take n |>.push t |>.append (s.tokens.drop n) }

def setKey (k : Option KeyStart) (s : Scanner) : Scanner := { s with keys := k :: s.keys.drop 1 }

def dropKey? (s : Scanner) : Option Scanner :=
  match s.keys with
  | some k :: _ => if k.required then none else some (s.setKey none)
  | _ => some s

def markKey? (s : Scanner) : Option Scanner :=
  if s.keyAllowed then do
    let required := !s.flow && s.indent = s.cursor.column
    let s ← s.dropKey?
    return s.setKey (some
      { required, before := s.tokens.size, index := s.cursor.index, line := s.cursor.line
        column := s.cursor.column })
  else some s

def dropStale? (s : Scanner) : Option Scanner := do
  let keys ← s.keys.mapM fun
    | some k =>
      if k.line < s.cursor.line || k.index + 1024 < s.cursor.index then
        if k.required then none else some none
      else some (some k)
    | none => some none
  return { s with keys }

def openBlock (column : Nat) (number : Nat) (t : Token) (s : Scanner) : Scanner :=
  if s.flow then s
  else if s.indent < column then
    { s with indents := s.indent :: s.indents, indent := column }.insertAt number t
  else s

def closeBlocks (column : Int) (s : Scanner) : Scanner :=
  if s.flow then s else go s.indents s
where
  go : List Int → Scanner → Scanner
    | [], s => s
    | i :: is, s =>
      if s.indent > column then go is { s.emit .blockEnd with indent := i, indents := is } else s

/-- Past white space, comments and line breaks. A byte order mark may stand at the start of a line
and takes up a column. Where a key may start, a tab is no white space. -/
def toNextToken : Nat → Scanner → Scanner
  | 0, s => s
  | fuel + 1, s =>
    let tabs := s.flow || !s.keyAllowed
    let cur := s.cursor
    let cur := if cur.column = 0 && cur.isChar '\ufeff' then cur.skip else cur
    let cur := (cur.takeWhile fun c => c = ' ' || (tabs && c = '\t')).2
    let cur := if cur.isChar '#' then (cur.takeWhile fun c => !Version.yaml11.isBreak c).2 else cur
    if cur.isBreak .yaml11 then
      toNextToken fuel
        { s with cursor := cur.readLine.2, keyAllowed := s.keyAllowed || !s.flow }
    else { s with cursor := cur }

def name? (isAlias : Bool) (s : Scanner) : Option Scanner := do
  let s ← s.markKey?
  let (name, cur) := s.cursor.skip.takeWhile isWordChar
  let ended := cur.isGap .yaml11 ||
    cur.at? fun c => "?:,]\x7d%@\x60".toList.contains c
  if name.isEmpty || !ended then none
  else
    let name := String.ofList name
    return { s with cursor := cur, keyAllowed := false }.emit
      (if isAlias then .alias name else .anchor name)

def tag? (s : Scanner) : Option Scanner := do
  let s ← s.markKey?
  let cur := s.cursor.skip
  let (handle, suffix, cur) ←
    if cur.isChar '<' then
      let (uri, cur) := cur.skip.takeWhile isPlainUriChar
      if uri.isEmpty || !cur.isChar '>' then none else some ([], uri, cur.skip)
    else
      let (word, after) := cur.takeWhile isWordChar
      if after.isChar '!' then
        let (suffix, cur) := after.skip.takeWhile isUriChar
        if suffix.isEmpty then none else some ('!' :: (word ++ ['!']), suffix, cur)
      else
        let (suffix, cur) := cur.takeWhile isUriChar
        some (if suffix.isEmpty then ([], ['!'], cur) else (['!'], suffix, cur))
  if !(cur.isGap .yaml11 || (s.flow && cur.isChar ',')) then none
  else
    return { s with cursor := cur, keyAllowed := false }.emit
      (.tag (String.ofList handle) (← unescape? suffix))

def directive? (s : Scanner) : Option Scanner := do
  let s ← (s.closeBlocks (-1)).dropKey?
  let s := { s with keyAllowed := false }
  let (name, cur) := s.cursor.skip.takeWhile isWordChar
  if !cur.isBlank then none
  else
    let cur := (cur.takeWhile Yaml.isBlank).2
    if name = "YAML".toList then
      let (major, cur) ← cur.versionNumber?
      let (minor, cur) ← if cur.isChar '.' then cur.skip.versionNumber? else none
      if major ≠ 1 || (minor ≠ 1 && minor ≠ 2) then none
      else return { s with cursor := ← cur.toLineEnd? .yaml11 }.emit .version
    else if name = "TAG".toList then
      let (handle, cur) ← cur.handle?
      let (uri, after) := (cur.takeWhile Yaml.isBlank).2.takeWhile isPlainUriChar
      if !cur.isBlank || uri.isEmpty || !after.isGap .yaml11 then none
      else
        return { s with cursor := ← after.toLineEnd? .yaml11 }.emit
          (.tagHandle handle (← unescape? uri))
    else none

def documentMark? (t : Token) (s : Scanner) : Option Scanner := do
  let s ← (s.closeBlocks (-1)).dropKey?
  return { s with keyAllowed := false, cursor := s.cursor.skips 3 }.emit t

def flowStart? (t : Token) (s : Scanner) : Option Scanner := do
  let s ← s.markKey?
  return { s with keys := none :: s.keys, keyAllowed := true, cursor := s.cursor.skip }.emit t

def flowEnd? (t : Token) (s : Scanner) : Option Scanner := do
  let s ← s.dropKey?
  let keys := if s.flow then s.keys.drop 1 else s.keys
  return { s with keys, keyAllowed := false, cursor := s.cursor.skip }.emit t

def flowEntry? (s : Scanner) : Option Scanner := do
  let s ← s.dropKey?
  return { s with keyAllowed := true, cursor := s.cursor.skip }.emit .flowEntry

def blockEntry? (s : Scanner) : Option Scanner := do
  let s ← if s.flow then some s
    else if s.keyAllowed then some (s.openBlock s.cursor.column s.tokens.size .blockSequence)
    else none
  let s ← s.dropKey?
  return { s with keyAllowed := true, cursor := s.cursor.skip }.emit .blockEntry

def explicitKey? (s : Scanner) : Option Scanner := do
  let s ← if s.flow then some s
    else if s.keyAllowed then some (s.openBlock s.cursor.column s.tokens.size .blockMapping)
    else none
  let s ← s.dropKey?
  return { s with keyAllowed := !s.flow, cursor := s.cursor.skip }.emit .key

def value? (s : Scanner) : Option Scanner :=
  match s.keys with
  | some k :: _ =>
    let s := (s.insertAt k.before .key).openBlock k.column k.before .blockMapping
    some ({ s.setKey none with keyAllowed := false, cursor := s.cursor.skip }.emit .value)
  | _ => do
    let s ← if s.flow then some s
      else if s.keyAllowed then some (s.openBlock s.cursor.column s.tokens.size .blockMapping)
      else none
    return { s with keyAllowed := !s.flow, cursor := s.cursor.skip }.emit .value

def blockScalar? (literal : Bool) (s : Scanner) : Option Scanner := do
  let s ← s.dropKey?
  let (text, cur) ← block? literal s.indent s.cursor.skip
  return { s with keyAllowed := true, cursor := cur }.emit (.scalar text false)

def quotedScalar? (single : Bool) (s : Scanner) : Option Scanner := do
  let s ← s.markKey?
  let (text, cur) ← quoted? single (s.cursor.rest.length + 1) {} s.cursor.skip
  return { s with keyAllowed := false, cursor := cur }.emit (.scalar text false)

def plainScalar? (s : Scanner) : Option Scanner := do
  let s ← s.markKey?
  let (text, broken, cur) ←
    plain? s.flow (s.indent + 1) (2 * s.cursor.rest.length + 2) {} s.cursor
  return { s with keyAllowed := broken, cursor := cur }.emit (.scalar text true)

def startsPlain (s : Scanner) : Bool :=
  match s.cursor.peek with
  | none => false
  | some c =>
    !(isBlank c || Version.yaml11.isBreak c || "-?:,[]\x7b\x7d#&*!|>'\"%@\x60".toList.contains c) ||
      (c = '-' && !(s.cursor.peekAt 1).all Yaml.isBlank) ||
      (!s.flow && (c = '?' || c = ':') && !s.cursor.isGapAt .yaml11 1)

def token? (s : Scanner) : Option Scanner :=
  let cur := s.cursor
  let flow := s.flow
  match cur.peek with
  | none => none
  | some c =>
    if cur.column = 0 && c = '%' then s.directive?
    else if cur.isMarker .yaml11 '-' then s.documentMark? .documentStart
    else if cur.isMarker .yaml11 '.' then s.documentMark? .documentEnd
    else if c = '[' then s.flowStart? .flowSequence
    else if c = '{' then s.flowStart? .flowMapping
    else if c = ']' then s.flowEnd? .flowSequenceEnd
    else if c = '}' then s.flowEnd? .flowMappingEnd
    else if c = ',' then s.flowEntry?
    else if c = '-' && cur.isGapAt .yaml11 1 then s.blockEntry?
    else if c = '?' && (flow || cur.isGapAt .yaml11 1) then s.explicitKey?
    else if c = ':' && (flow || cur.isGapAt .yaml11 1) then s.value?
    else if c = '*' then s.name? true
    else if c = '&' then s.name? false
    else if c = '!' then s.tag?
    else if c = '|' && !flow then s.blockScalar? true
    else if c = '>' && !flow then s.blockScalar? false
    else if c = '\x27' then s.quotedScalar? true
    else if c = '"' then s.quotedScalar? false
    else if s.startsPlain then s.plainScalar?
    else none

def finish? (s : Scanner) : Option (List Token) := do
  let s ← (s.closeBlocks (-1)).dropKey?
  return s.tokens.toList

def run? : Nat → Scanner → Option (List Token)
  | 0, _ => none
  | fuel + 1, s => do
    let s ← (s.toNextToken (s.cursor.rest.length + 1)).dropStale?
    if s.cursor.atEnd then s.finish?
    else run? fuel (← (s.closeBlocks s.cursor.column).token?)

end Scanner

def isAllowed (c : Char) : Bool :=
  c = '\t' || c = '\n' || c = '\r' || (' ' ≤ c && c ≤ '~') || c = '\x85' ||
    ('\u00a0' ≤ c && c ≠ '\ufffe' && c ≠ '\uffff')

def tokens? (text : String) : Option (List Token) :=
  let cs := text.toList
  if cs.all isAllowed then Scanner.run? (2 * cs.length + 2) { cursor := { rest := cs } } else none

end StaticSite.Yaml.V11
