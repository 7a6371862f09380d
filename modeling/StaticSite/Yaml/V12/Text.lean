import StaticSite.Yaml.Fold

namespace StaticSite.Yaml.V12

def isBreak (c : Char) : Bool := Version.yaml12.isBreak c

structure Blanks where
  tab : Bool
  space : Bool

def toLineEnd? (cur : Cursor) : Option (Blanks × Cursor) :=
  let (ws, cur) := cur.takeWhile isBlank
  let seen : Blanks := { tab := ws.contains '\t', space := ws.contains ' ' }
  if !cur.isChar '#' then some (seen, cur)
  else if ws.isEmpty then none
  else some (seen, (cur.takeWhile fun c => !isBreak c).2)

def quotedGap? (indent : Int) : Nat → Fold → Cursor → Option (Fold × Cursor)
  | 0, _, _ => none
  | fuel + 1, f, cur =>
    match cur.peek with
    | none => some (f, cur)
    | some c =>
      if isBlank c then
        if f.broken && c = '\t' && cur.column < indent then none
        else quotedGap? indent fuel (f.blank c) cur.skip
      else if isBreak c then
        let (cs, cur) := cur.readLine
        quotedGap? indent fuel (f.lineBreak cs) cur
      else some (f, cur)

def quoted? (single : Bool) (indent : Int) : Nat → Fold → Cursor → Option (String × Cursor)
  | 0, _, _ => none
  | fuel + 1, f, cur =>
    if cur.isDocumentMarker .yaml12 || cur.column < indent then none
    else
      match cur.rest with
      | [] => none
      | c :: cs =>
        if isBlank c || isBreak c then do
          let (f, cur) ← quotedGap? indent (cur.rest.length + 1) f cur
          quoted? single indent fuel f.join cur
        else if single && c = '\x27' then
          if cs.head? = some '\x27' then quoted? single indent fuel (f.push '\x27') (cur.skips 2)
          else some (f.text, cur.skip)
        else if !single && c = '"' then some (f.text, cur.skip)
        else if !single && c = '\\' then
          if cs.head?.any isBreak then
            let (_, cur) := cur.skip.readLine
            if cur.isChar '"' then some (f.text, cur.skip)
            else do
              let (f, cur) ← quotedGap? indent (cur.rest.length + 1) { f with broken := true } cur
              quoted? single indent fuel f.join cur
          else
            match escape? cur.rest with
            | some (d, n) => quoted? single indent fuel (f.push d) (cur.skips n)
            | none => none
        else quoted? single indent fuel (f.push c) cur.skip

/-- What may come after a quoted scalar on its line: nothing, a colon if the scalar is on one line
or inside a flow collection, or a mark of that collection. -/
def mayFollow (flow : Bool) (oneLine : Bool) (cur : Cursor) : Bool :=
  cur.endsLine .yaml12 || (flow && cur.at? fun c => c = ',' || c = '}' || c = ']') ||
    (cur.isChar ':' && (flow || oneLine))

def goesOn (flow : Bool) (cur : Cursor) : Bool :=
  match cur.peek with
  | none => false
  | some c =>
    !(isBlank c || isBreak c) &&
      !(c = ':' && (cur.isGapAt .yaml12 1 || (flow && (cur.peekAt 1).any isFlowMark))) &&
      !(flow && isFlowMark c)

def word (flow : Bool) : Nat → Fold → Cursor → Fold × Cursor
  | 0, f, cur => (f, cur)
  | fuel + 1, f, cur =>
    match cur.peek with
    | some c => if goesOn flow cur then word flow fuel (f.push c) cur.skip else (f, cur)
    | none => (f, cur)

def plainGap? (indent : Int) : Nat → Fold → Cursor → Option (Fold × Cursor)
  | 0, _, _ => none
  | fuel + 1, f, cur =>
    match cur.peek with
    | none => some (f, cur)
    | some c =>
      if isBlank c then
        if f.broken && c = '\t' && cur.column < indent then do
          let (_, cur) ← toLineEnd? cur
          if cur.endsLine .yaml12 then plainGap? indent fuel f cur else none
        else plainGap? indent fuel (f.blank c) cur.skip
      else if isBreak c then
        let (cs, cur) := cur.readLine
        plainGap? indent fuel (f.lineBreak cs) cur
      else some (f, cur)

def plain? (flow : Bool) (indent : Int) : Nat → Fold → Cursor → Option (String × Bool × Cursor)
  | 0, _, _ => none
  | fuel + 1, f, cur =>
    let ended (f : Fold) (cur : Cursor) := some (f.text, f.broken, cur)
    if cur.isDocumentMarker .yaml12 || cur.isChar '#' then ended f cur
    else if flow && cur.isChar '-' && (cur.peekAt 1).any isFlowMark then none
    else
      let (f, cur) :=
        if goesOn flow cur then word flow (cur.rest.length + 1) f.join cur else (f, cur)
      if !cur.at? fun c => isBlank c || isBreak c then ended f cur
      else
        match plainGap? indent (cur.rest.length + 1) f cur with
        | none => none
        | some (f, cur) => if !flow && cur.column < indent then ended f cur
          else plain? flow indent fuel f cur

def blankLines (indent : Nat) : Nat → List Char → Cursor → List Char × Cursor
  | 0, breaks, cur => (breaks, cur)
  | fuel + 1, breaks, cur =>
    let cur := cur.skips (min (cur.rest.takeWhile (· = ' ')).length (indent - cur.column))
    if cur.isBreak .yaml12 then
      let (cs, cur) := cur.readLine
      blankLines indent fuel (breaks ++ cs) cur
    else (breaks, cur)

def firstLines : Nat → Nat → List Char → Cursor → Nat × List Char × Cursor
  | 0, deepest, breaks, cur => (deepest, breaks, cur)
  | fuel + 1, deepest, breaks, cur =>
    let cur := (cur.takeWhile (· = ' ')).2
    let deepest := max deepest cur.column
    if cur.isBreak .yaml12 then
      let (cs, cur) := cur.readLine
      firstLines fuel deepest (breaks ++ cs) cur
    else (deepest, breaks, cur)

def blockLines (literal : Bool) (chomp : Chomp) (indent : Nat) :
    Nat → List Char → List Char → List Char → Bool → Cursor → String × Cursor
  | 0, rev, _, _, _, cur => (String.ofList rev.reverse, cur)
  | fuel + 1, rev, last, breaks, spaced, cur =>
    let done (rev last breaks : List Char) (cur : Cursor) :=
      let unended := cur.atEnd && cur.column ≥ max indent 1
      let tail := match chomp with
        | .strip => []
        | .clip => last ++ if unended then ['\n'] else []
        | .keep => last ++ (if unended then ['\n'] else []) ++ breaks
      (String.ofList (rev.reverse ++ tail), cur)
    if cur.column ≠ indent || cur.atEnd || (indent = 0 && cur.isMarker .yaml12 '.') then
      done rev last breaks cur
    else
      let blank := cur.isBlank
      let between :=
        if !literal && !last.isEmpty && !spaced && !blank then
          if breaks.isEmpty then [' '] else breaks
        else last ++ breaks
      let (line, cur) := cur.takeWhile fun c => !isBreak c
      let rev := line.reverse ++ (between.reverse ++ rev)
      if cur.atEnd then done rev [] [] cur
      else
        let (last, cur) := cur.readLine
        let (breaks, cur) := blankLines indent (cur.rest.length + 1) [] cur
        blockLines literal chomp indent fuel rev last breaks blank cur

def block? (literal : Bool) (parent : Int) (start : Cursor) : Option (String × Cursor) := do
  let (chomp, digit, cur) ← blockHeader? start
  let (_, cur) ← toLineEnd? cur
  if !cur.endsLine .yaml12 then none
  else
    let (header, cur) := if cur.isBreak .yaml12 then cur.readLine else ([], cur)
    if cur.isChar '\t' then none
    else
      let fuel := cur.rest.length + 1
      let given := digit.map fun n => if parent ≥ 0 then parent.toNat + n else n
      let (indent, breaks, cur) := match given with
        | some n =>
          let (breaks, cur) := blankLines n fuel [] cur
          (n, breaks, cur)
        | none =>
          let (deepest, breaks, cur) := firstLines fuel 0 [] cur
          (max deepest (parent + 1).toNat, breaks, cur)
      if cur.atEnd then
        let text := match chomp with
          | .strip => []
          | .clip => header
          | .keep => if breaks.isEmpty then header else breaks
        some (String.ofList (if cur.line = start.line then [] else text), cur)
      else if cur.column < indent && parent < cur.column then none
      else some (blockLines literal chomp indent fuel [] [] breaks false cur)

end StaticSite.Yaml.V12
