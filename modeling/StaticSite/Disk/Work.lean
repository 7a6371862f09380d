import StaticSite.Disk.Basic

namespace StaticSite

abbrev Work (ε : Type) := ExceptT ε (StateM Disk)

namespace Work

def ask (f : Disk → Except ε α) : Work ε α := do
  match f (← get) with
  | .ok a => return a
  | .error e => throw e

def change (f : Disk → Except ε Disk) : Work ε Unit := do
  match f (← get) with
  | .ok d => set d
  | .error e => throw e

def mapError (f : ε → ε') (x : Work ε α) : Work ε' α := fun d =>
  let r := x d
  (r.1.mapError f, r.2)

def ancestors : Nat → Path → List Path
  | 0, _ => []
  | n + 1, p =>
    p :: (match p.parent? with
      | some q => ancestors n q
      | none => [])

/-- Makes the first of some directories. Where it finds no place for it, it makes the others first,
each of which is the parent of the one before. -/
def makeFirst : List Path → Work DiskError Unit
  | [] => throw .notFound
  | p :: above => fun d =>
    if p.isEmpty then (.ok (), d)
    else
      match d.makeDir p with
      | .ok d => (.ok (), d)
      | .error .notFound =>
        match makeFirst above d with
        | (.error e, d) => (.error e, d)
        | (.ok (), d) =>
          match d.makeDir p with
          | .ok d => (.ok (), d)
          | .error e => (if d.isDir p then .ok () else .error e, d)
      | .error e => (if d.isDir p then .ok () else .error e, d)

def makeDirs (p : Path) : Work DiskError Unit := makeFirst (ancestors (p.segments.length + 2) p)

/-- Empties a directory and takes it away. If the path leads through the directory itself, it leads
nowhere once that is empty, and the empty directory stays. -/
def removeTree (p : Path) : Work DiskError Unit := do
  let place ← ask fun d => d.find p
  let _ ← ask fun d => d.entries place
  modify fun d => { d with files := d.files.put place .empty }
  change fun d =>
    match d.removeDir p with
    | .error .notFound => .ok d
    | r => r

def writeFile (p : Path) (content : ByteArray) : Work DiskError Unit := do
  match p.parent? with
  | some q => makeDirs q
  | none => pure ()
  change fun d => d.write p content

end Work

end StaticSite
