import StaticSite.Yaml.Fold

namespace StaticSite.Yaml.V11

def quotedGap : Nat → Fold → Cursor → Fold × Cursor
  | 0, f, cur => (f, cur)
  | fuel + 1, f, cur =>
    match cur.peek with
    | none => (f, cur)
    | some c =>
      if isBlank c then quotedGap fuel (f.blank c) cur.skip
      else if Version.yaml11.isBreak c then
        let (cs, cur) := cur.readLine
        quotedGap fuel (f.lineBreak cs) cur
      else (f, cur)

def quoted? (single : Bool) : Nat → Fold → Cursor → Option (String × Cursor)
  | 0, _, _ => none
  | fuel + 1, f, cur =>
    if cur.isDocumentMarker .yaml11 then none
    else
      match cur.rest with
      | [] => none
      | c :: cs =>
        if isBlank c || Version.yaml11.isBreak c then
          let (f, cur) := quotedGap (cur.rest.length + 1) f cur
          quoted? single fuel f cur
        else if single && c = '\x27' then
          if cs.head? = some '\x27' then quoted? single fuel (f.join.push '\x27') (cur.skips 2)
          else some (f.join.text, cur.skip)
        else if !single && c = '"' then some (f.join.text, cur.skip)
        else if !single && c = '\\' then
          if cs.head?.any Version.yaml11.isBreak then
            let (_, cur) := cur.skip.readLine
            let f := f.join
            let (g, cur) := quotedGap (cur.rest.length + 1) { broken := true } cur
            quoted? single fuel { f with broken := true, first := [], more := g.more } cur
          else
            match escape? cur.rest with
            | some (d, n) => quoted? single fuel (f.join.push d) (cur.skips n)
            | none => none
        else quoted? single fuel (f.join.push c) cur.skip

def plainGap? (indent : Int) : Nat → Fold → Cursor → Option (Fold × Cursor)
  | 0, _, _ => none
  | fuel + 1, f, cur =>
    match cur.peek with
    | none => some (f, cur)
    | some c =>
      if isBlank c then
        if f.broken && cur.column < indent && c = '\t' then none
        else plainGap? indent fuel (f.blank c) cur.skip
      else if Version.yaml11.isBreak c then
        let (cs, cur) := cur.readLine
        plainGap? indent fuel (f.lineBreak cs) cur
      else some (f, cur)

def plain? (flow : Bool) (indent : Int) : Nat → Fold → Cursor → Option (String × Bool × Cursor)
  | 0, _, _ => none
  | fuel + 1, f, cur =>
    let ended := some (f.text, f.broken, cur)
    if cur.isDocumentMarker .yaml11 then ended
    else
      match cur.peek with
      | none => ended
      | some c =>
        if isBlank c || Version.yaml11.isBreak c then
          match plainGap? indent (cur.rest.length + 1) f cur with
          | none => none
          | some (f, cur) =>
            if (!flow && cur.column < indent) || cur.isChar '#' then
              some (f.text, f.broken, cur)
            else plain? flow indent fuel f cur
        else if flow && c = ':' && (cur.peekAt 1).any fun d => isFlowMark d || d = '?' then none
        else if (c = ':' && cur.isGapAt .yaml11 1) || (flow && isFlowMark c) then ended
        else plain? flow indent fuel (f.join.push c) cur.skip

/-- Blank lines before the next line of a block scalar. While its indentation is not known it is the
greatest column seen; tabs must not stand in it. -/
def blankLines? (indent : Nat) : Nat → Nat → List Char → Cursor → Option (Nat × List Char × Cursor)
  | 0, _, _, _ => none
  | fuel + 1, deepest, breaks, cur =>
    let spaces := (cur.rest.takeWhile (· = ' ')).length
    let spaces := if indent = 0 then spaces else min spaces (indent - cur.column)
    let cur := cur.skips spaces
    let deepest := max deepest cur.column
    if (indent = 0 || cur.column < indent) && cur.isChar '\t' then none
    else if cur.isBreak .yaml11 then
      let (cs, cur) := cur.readLine
      blankLines? indent fuel deepest (breaks ++ cs) cur
    else some (deepest, breaks, cur)

def blockLines? (literal : Bool) (chomp : Chomp) (indent : Nat) :
    Nat → List Char → List Char → List Char → Bool → Cursor → Option (String × Cursor)
  | 0, _, _, _, _, _ => none
  | fuel + 1, rev, last, breaks, spaced, cur =>
    if cur.column = indent && !cur.atEnd then do
      let blank := cur.isBlank
      let between :=
        if !literal && last.head? = some '\n' && !spaced && !blank then
          if breaks.isEmpty then [' '] else breaks
        else last ++ breaks
      let (line, cur) := cur.takeWhile fun c => !Version.yaml11.isBreak c
      let (last, cur) := cur.readLine
      let (_, breaks, cur) ← blankLines? indent (cur.rest.length + 1) 0 [] cur
      blockLines? literal chomp indent fuel (line.reverse ++ (between.reverse ++ rev)) last breaks
        blank cur
    else
      let tail := match chomp with
        | .strip => []
        | .clip => last
        | .keep => last ++ breaks
      some (String.ofList (rev.reverse ++ tail), cur)

def block? (literal : Bool) (parent : Int) (cur : Cursor) : Option (String × Cursor) := do
  let (chomp, digit, cur) ← blockHeader? cur
  let cur ← cur.toLineEnd? .yaml11
  let cur := if cur.isBreak .yaml11 then cur.readLine.2 else cur
  let fuel := cur.rest.length + 1
  let given := digit.map fun n => if parent ≥ 0 then parent.toNat + n else n
  let (deepest, breaks, cur) ← blankLines? (given.getD 0) fuel 0 [] cur
  let indent := given.getD (max (max deepest (parent + 1).toNat) 1)
  blockLines? literal chomp indent fuel [] [] breaks false cur

end StaticSite.Yaml.V11
