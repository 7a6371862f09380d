import StaticSite.Yaml.Token
import StaticSite.Yaml.Uri
import StaticSite.Yaml.V12.Text

/-! Reading the tokens of YAML 1.2. Beside the indentation of blocks there is that of what a block
holds, one column deeper, which opens nothing. -/

namespace StaticSite.Yaml.V12

structure Indent where
  column : Int
  opens : Bool

/-- `keys` has one entry for each open flow collection and one for the blocks around them; `lead`
while only blanks came before on the line; a colon at `adjacent` needs no gap after it; `mapped`
after a flow map opened, or an explicit key in one; `pairs` has one entry for each open flow
sequence, which says whether a pair without braces is open in it; `propertyAtStart` while the last
token is an anchor or tag at the start of a line. -/
structure Scanner where
  cursor : Cursor
  tokens : Array Token := #[]
  indent : Int := -1
  indents : List Indent := []
  keyAllowed : Bool := true
  keys : List (Option KeyStart) := [none]
  lead : Bool := true
  adjacent : Nat := 0
  mapped : Bool := false
  pairs : List Bool := []
  propertyAtStart : Bool := false

namespace Scanner

def nestingLimit : Nat := 255

def flow (s : Scanner) : Bool := s.keys.length > 1

def emit (t : Token) (s : Scanner) : Scanner :=
  { s with tokens := s.tokens.push t, propertyAtStart := false }

def insertAt (n : Nat) (t : Token) (s : Scanner) : Scanner :=
  { s with tokens := s.tokens.take n |>.push t |>.append (s.tokens.drop n) }

def goTo (cur : Cursor) (s : Scanner) : Scanner := { s with cursor := cur, lead := false }

def setKey (k : Option KeyStart) (s : Scanner) : Scanner := { s with keys := k :: s.keys.drop 1 }

def dropKey? (s : Scanner) : Option Scanner :=
  match s.keys with
  | some k :: _ => if k.required then none else some (s.setKey none)
  | _ => some s

def markKey (s : Scanner) : Scanner :=
  if s.keyAllowed then
    let required := !s.flow && s.indent = s.cursor.column && s.indents.head?.any Indent.opens
    s.setKey (some
      { required, before := s.tokens.size, index := s.cursor.index, line := s.cursor.line
        column := s.cursor.column })
  else s

def dropStale? (s : Scanner) : Option Scanner :=
  match s.keys with
  | [some k] =>
    if k.line < s.cursor.line || k.index + 1024 < s.cursor.index then s.dropKey? else some s
  | _ => some s

def openBlock (column : Nat) (number : Nat) (t : Token) (s : Scanner) : Scanner :=
  if s.flow then s
  else
    let s : Scanner := match s.indents with
      | ⟨outer, false⟩ :: is =>
        if s.indent ≤ column then { s with indent := outer, indents := is } else s
      | _ => s
    if s.indent < column then
      { s with indents := ⟨s.indent, true⟩ :: s.indents, indent := column }.insertAt number t
    else s

def deepen (s : Scanner) : Scanner :=
  if !s.flow && s.indents.head?.any Indent.opens then
    { s with indents := ⟨s.indent, false⟩ :: s.indents, indent := s.indent + 1 }
  else s

def undeepen (s : Scanner) : Scanner := go s.indents s
where
  go : List Indent → Scanner → Scanner
    | [], s => s
    | i :: is, s => if i.opens then s else go is { s with indent := i.column, indents := is }

def closeBlocks (column : Int) (s : Scanner) : Scanner :=
  if s.flow then s else go s.indents s
where
  go : List Indent → Scanner → Scanner
    | [], s => s
    | i :: is, s =>
      if s.indent > column then
        let s := { s with indent := i.column, indents := is }
        go is (if i.opens then s.emit .blockEnd else s)
      else s

def closePair (s : Scanner) : Scanner :=
  match s.pairs with
  | true :: rest => { s with mapped := false, pairs := false :: rest }.emit .flowMappingEnd
  | _ => s

def newLine (s : Scanner) : Scanner :=
  { s with cursor := s.cursor.readLine.2, keyAllowed := s.keyAllowed || !s.flow, lead := true }

def skipComment (s : Scanner) : Scanner :=
  { s with cursor := (s.cursor.takeWhile fun c => !isBreak c).2 }

/-- Past white space, comments and line breaks. In the indentation of a block a tab may stand only
in a line without anything else. -/
def toNextToken? : Nat → Scanner → Option Scanner
  | 0, s => some s
  | fuel + 1, s =>
    match s.cursor.peek with
    | none => some s
    | some c =>
      if c = '\t' && !s.indents.isEmpty && s.lead && s.cursor.column < s.indent then do
        let (_, cur) ← toLineEnd? s.cursor
        if cur.endsLine .yaml12 then toNextToken? fuel { s with cursor := cur } else none
      else if isBlank c then toNextToken? fuel { s with cursor := s.cursor.skip }
      else if isBreak c then toNextToken? fuel s.newLine
      else if c = '#' then toNextToken? fuel s.skipComment
      else some s

def restOfLine? (s : Scanner) : Option Scanner := do
  return { s with cursor := (← toLineEnd? s.cursor).2 }

def isNameChar (c : Char) : Bool :=
  !(isBlank c || isBreak c || isFlowMark c || c = '\ufeff')

def name? (isAlias : Bool) (s : Scanner) : Option Scanner :=
  let atStart := !isAlias && s.cursor.column = 0
  let s := s.markKey
  let (name, cur) := s.cursor.skip.takeWhile isNameChar
  if name.isEmpty then none
  else
    let name := String.ofList name
    let s := { s with keyAllowed := false }.goTo cur
    some { s.emit (if isAlias then .alias name else .anchor name) with propertyAtStart := atStart }

def isTagUriChar (c : Char) : Bool :=
  c.isAlphanum || "-#;/?:@&=+$,_.!~*'()[]%".toList.contains c

def isTagChar (c : Char) : Bool := isTagUriChar c && !isFlowMark c && c ≠ '!'

def tag? (s : Scanner) : Option Scanner := do
  let atStart := s.cursor.column = 0
  let s := s.markKey
  let cur := s.cursor.skip
  let (handle, suffix, cur) ←
    if cur.isChar '<' then
      let (uri, cur) := cur.skip.takeWhile isTagUriChar
      if cur.isChar '>' then some ([], uri, cur.skip) else none
    else
      let (word, after) := cur.takeWhile isWordChar
      if after.isChar '!' then
        let (suffix, cur) := after.skip.takeWhile isTagChar
        if suffix.isEmpty then none else some ('!' :: (word ++ ['!']), suffix, cur)
      else
        let (suffix, cur) := after.takeWhile isTagChar
        let suffix := word ++ suffix
        some (if suffix.isEmpty then ([], ['!'], cur) else (['!'], suffix, cur))
  if !(cur.isGap .yaml12 || (s.flow && cur.at? isFlowMark)) then none
  else
    let t : Token := .tag (String.ofList handle) (← unescape? suffix)
    return { ({ s with keyAllowed := false }.goTo cur).emit t with propertyAtStart := atStart }

def tagLead? (cur : Cursor) : Option (List Char × Cursor) :=
  if cur.isChar '!' || cur.at? isTagChar then
    let (cs, after) := cur.skip.takeWhile isTagUriChar
    some (cur.rest.take 1 ++ cs, after)
  else none

def directive? (s : Scanner) : Option Scanner := do
  let s ← (s.closeBlocks (-1)).dropKey?
  let (name, cur) := s.cursor.skip.takeWhile isWordChar
  if name.isEmpty || !cur.isGap .yaml12 then none
  else
    let value := (cur.takeWhile isBlank).2
    let (t, cur) ←
      if name = "YAML".toList then do
        let (_, cur) ← value.versionNumber?
        let (_, cur) ← if cur.isChar '.' then cur.skip.versionNumber? else none
        some (Token.version, cur)
      else if name = "TAG".toList then do
        let (handle, cur) ← value.handle?
        let (lead, cur) ← tagLead? (cur.takeWhile isBlank).2
        if cur.isGap .yaml12 then some (Token.tagHandle handle (← unescape? lead), cur) else none
      else some (Token.tagHandle "" "", (cur.takeWhile fun c => !isBreak c).2)
    let (_, cur) ← toLineEnd? cur
    if !cur.endsLine .yaml12 then none
    else
      return { s with keyAllowed := false, cursor := cur.readLine.2, lead := true }.emit t

def documentMark? (t : Token) (s : Scanner) : Option Scanner := do
  let s ← (s.closeBlocks (-1)).dropKey?
  return ({ s with keyAllowed := false }.goTo (s.cursor.skips 3)).emit t

def documentEnd? (s : Scanner) : Option Scanner := do
  let s ← (← s.documentMark? .documentEnd).restOfLine?
  if s.cursor.endsLine .yaml12 then some s else none

def flowStart? (t : Token) (s : Scanner) : Option Scanner := do
  let s := s.markKey.deepen
  if s.keys.length > nestingLimit then failure
  let s := { s with keys := none :: s.keys, keyAllowed := true }.goTo s.cursor.skip
  let s :=
    if t = .flowMapping then { s with mapped := true } else { s with pairs := false :: s.pairs }
  return (← s.restOfLine?).emit t

def flowEnd? (t : Token) (s : Scanner) : Option Scanner := do
  let s ← s.dropKey?
  let s := { s with keys := if s.flow then s.keys.drop 1 else s.keys, keyAllowed := false }
  let s := if t = .flowSequenceEnd then
      let s := s.closePair
      { s with pairs := s.pairs.drop 1 }
    else s
  let s ← (s.goTo s.cursor.skip).restOfLine?
  return { s with adjacent := if s.flow then s.cursor.index else s.adjacent }.emit t

def flowEntry? (s : Scanner) : Option Scanner := do
  let s := { (← s.dropKey?) with keyAllowed := true }.closePair
  return (← (s.goTo s.cursor.skip).restOfLine?).emit .flowEntry

def blockEntry? (s : Scanner) : Option Scanner := do
  if s.flow || !s.keyAllowed then failure
  if s.propertyAtStart && s.cursor.column = 0 && s.indent > -1 then failure
  let s := (s.openBlock s.cursor.column s.tokens.size .blockSequence).goTo s.cursor.skip
  let (seen, cur) ← toLineEnd? s.cursor
  if seen.tab && cur.isChar '-' && cur.isGapAt .yaml12 1 then failure
  let s := { s with cursor := cur }
  let s := if cur.isBreak .yaml12 || cur.at? isFlowMark then s.deepen else s
  return { (← s.dropKey?) with keyAllowed := true }.emit .blockEntry

def afterQuestion? : Nat → Bool → Scanner → Option Scanner
  | 0, _, _ => none
  | fuel + 1, any, s =>
    match s.cursor.peek with
    | some c =>
      if c = ' ' then afterQuestion? fuel true { s with cursor := s.cursor.skip }
      else if isBreak c then afterQuestion? fuel true s.newLine
      else if c = '#' then afterQuestion? fuel any s.skipComment
      else if any && c ≠ '\t' then some s
      else none
    | none => if any then some s else none

def explicitKey? (s : Scanner) : Option Scanner := do
  let s ← if s.flow then some { s with mapped := true }
    else if s.keyAllowed then some (s.openBlock s.cursor.column s.tokens.size .blockMapping)
    else none
  let s := { (← s.dropKey?) with keyAllowed := !s.flow }.goTo s.cursor.skip
  return (← s.afterQuestion? (s.cursor.rest.length + 1) false).emit .key

def value? (s : Scanner) : Option Scanner := do
  let start := s.cursor
  let paired := !s.pairs.isEmpty && !s.mapped
  let s := if paired then { s with pairs := true :: s.pairs.drop 1 } else s
  let s := s.goTo start.skip
  let s ← if s.cursor.isChar '\t' then do
      let (seen, cur) ← toLineEnd? s.cursor
      if !seen.space && cur.at? isWordChar then none else some { s with cursor := cur }
    else some s
  match s.keys with
  | some k :: _ =>
    if paired && k.line < start.line then failure
    let s := s.insertAt k.before .key
    let s := if paired then s.insertAt k.before .flowMapping else s
    let s := (s.openBlock k.column k.before .blockMapping).deepen
    return { s.setKey none with keyAllowed := false }.emit .value
  | _ =>
    let s := if paired then s.emit .flowMapping else s
    if !s.flow && !s.keyAllowed then failure
    let s := (s.openBlock start.column s.tokens.size .blockMapping).deepen
    return { s with keyAllowed := !s.flow }.emit .value

/-- A colon in a flow collection without a gap after it; a collection comes after it only if the key
lets it. -/
def flowValue? (s : Scanner) : Option Scanner :=
  if s.cursor.index ≠ s.adjacent && (s.cursor.peekAt 1).any fun c => c = '[' || c = '{' then none
  else s.value?

def blockScalar? (literal : Bool) (s : Scanner) : Option Scanner := do
  let s := s.markKey.undeepen
  let (text, cur) ← block? literal s.indent s.cursor.skip
  return { s with keyAllowed := true, cursor := cur, lead := true }.emit (.scalar text false)

def quotedScalar? (single : Bool) (s : Scanner) : Option Scanner := do
  let start := s.cursor
  let s := { s.markKey with keyAllowed := false }
  let (text, cur) ← quoted? single s.indent (start.rest.length + 1) {} start.skip
  let s ← (s.goTo cur).restOfLine?
  if !mayFollow s.flow (start.line = s.cursor.line) s.cursor then failure
  let s ← s.toNextToken? (s.cursor.rest.length + 1)
  return { s with adjacent := s.cursor.index }.emit (.scalar text false)

def plainScalar? (s : Scanner) : Option Scanner := do
  let s := s.markKey.undeepen
  if s.flow && s.cursor.column < s.indent + 1 then failure
  let (text, broken, cur) ← plain? s.flow (s.indent + 1) (s.cursor.rest.length + 1) {} s.cursor
  if text.isEmpty then failure
  return { s with keyAllowed := broken, cursor := cur, lead := broken }.emit (.scalar text true)

def token? (s : Scanner) : Option Scanner :=
  let cur := s.cursor
  let flow := s.flow
  match cur.peek with
  | none => none
  | some c =>
    let gap := cur.isGapAt .yaml12 1
    if cur.column = 0 && c = '%' then s.directive?
    else if cur.isMarker .yaml12 '-' then s.documentMark? .documentStart
    else if cur.isMarker .yaml12 '.' then s.documentEnd?
    else if cur.column < s.indent then none
    else if c = '[' then s.flowStart? .flowSequence
    else if c = '{' then s.flowStart? .flowMapping
    else if c = ']' then s.flowEnd? .flowSequenceEnd
    else if c = '}' then s.flowEnd? .flowMappingEnd
    else if c = ',' then s.flowEntry?
    else if c = '-' && gap then s.blockEntry?
    else if c = '?' && gap then s.explicitKey?
    else if c = ':' && gap then s.value?
    else if c = ':' && flow && ((cur.peekAt 1).any isFlowMark || cur.index = s.adjacent) then
      s.flowValue?
    else if c = '*' then s.name? true
    else if c = '&' then s.name? false
    else if c = '!' then s.tag?
    else if c = '|' && !flow then s.blockScalar? true
    else if c = '>' && !flow then s.blockScalar? false
    else if c = '\x27' then s.quotedScalar? true
    else if c = '"' then s.quotedScalar? false
    else if c = '%' || c = '@' || c = '\x60' then none
    else s.plainScalar?

def finish? (s : Scanner) : Option (List Token) :=
  if s.keys.any fun k => k.any KeyStart.required then none
  else some (s.closeBlocks (-1)).tokens.toList

def run? : Nat → Scanner → Option (List Token)
  | 0, _ => none
  | fuel + 1, s => do
    let s ← (← s.toNextToken? (s.cursor.rest.length + 1)).dropStale?
    let s := s.closeBlocks s.cursor.column
    if s.cursor.atEnd then s.finish? else run? fuel (← s.token?)

end Scanner

/-- The tokens of a text, which ends at the first character with the code zero. -/
def tokens? (text : String) : Option (List Token) :=
  let cs := text.toList.takeWhile (· ≠ '\x00')
  Scanner.run? (2 * cs.length + 2) { cursor := { rest := cs } }

end StaticSite.Yaml.V12
