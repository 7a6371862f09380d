namespace StaticSite.Text

def cutAt (mark : List Char) : List Char → Option (List Char × List Char)
  | [] => if mark.isEmpty then some ([], []) else none
  | c :: cs =>
    if mark.isPrefixOf (c :: cs) then some ([], (c :: cs).drop mark.length)
    else (cutAt mark cs).map fun r => (c :: r.1, r.2)

def cutWhere (p : Char → Bool) : List Char → Option (List Char × List Char)
  | [] => none
  | c :: cs => if p c then some ([], cs) else (cutWhere p cs).map fun r => (c :: r.1, r.2)

def piecesFrom (sep : Char) (piece : List Char) : List Char → List (List Char)
  | [] => [piece.reverse]
  | c :: cs =>
    if c = sep then piece.reverse :: piecesFrom sep [] cs else piecesFrom sep (c :: piece) cs

def pieces (sep : Char) (cs : List Char) : List (List Char) := piecesFrom sep [] cs

def linesFrom (line : List Char) : List Char → List (List Char)
  | [] => if line.isEmpty then [] else [line.reverse]
  | c :: cs => if c = '\n' then (c :: line).reverse :: linesFrom [] cs else linesFrom (c :: line) cs

def lines (cs : List Char) : List (List Char) := linesFrom [] cs

theorem flatten_linesFrom (line cs : List Char) :
    (linesFrom line cs).flatten = line.reverse ++ cs := by
  induction cs generalizing line with
  | nil => cases line <;> simp [linesFrom]
  | cons c cs ih => by_cases h : c = '\n' <;> simp [linesFrom, h, ih]

@[simp] theorem flatten_lines (cs : List Char) : (lines cs).flatten = cs := by
  simp [lines, flatten_linesFrom]

end StaticSite.Text
