import StaticSite.Command.Basic
import StaticSite.Command.Line
import StaticSite.Disk.Change

namespace StaticSite.Program

partial def readTree (path : String) : IO (Option FileTree) := do
  let file := (← IO.currentDir) / path
  if ← file.isDir then
    let mut entries := []
    for e in ← file.readDir do
      if let some t ← readTree (path ++ "/" ++ e.fileName) then
        entries := (e.fileName, t) :: entries
    return some (.dir entries)
  else if ← file.pathExists then
    return some (.file (← IO.FS.readBinFile file))
  else return none

def takeOver (d : Disk) (p : Path) : IO Disk := do
  match p.normalize? d.cwd with
  | none => return d
  | some place =>
    match ← readTree (Place.text place) with
    | some t => return { d with files := d.files.put place t }
    | none => return d

def configFiles (file : Path) : List Path :=
  file :: ["toml", "json", "yaml", "yml"].map fun ext => .ofText (file.text ++ "." ++ ext)

def settingNames : List String :=
  ["PROJECT__NAME", "PROJECT__LANG", "PROJECT__DESCRIPTION", "PATHS__TOKENS", "PATHS__PAGES",
    "PATHS__STYLES", "PATHS__UTILITIES", "PATHS__FONTS", "PATHS__ASSETS", "PATHS__OUTPUT",
    "BUILD__STYLESHEET", "BUILD__TOKEN_PREFIX", "WATCH__DEBOUNCE_MS"].map ("TESSERA__" ++ ·)

def environment : IO Environment := do
  let mut env := []
  for name in settingNames do
    if let some value ← IO.getEnv name then env := env ++ [(name, value)]
  return env

def snapshot (env : Environment) (l : CommandLine) : IO Disk := do
  let cwd := (Path.ofText (← IO.currentDir).toString).components.foldl Place.step []
  let mut d : Disk := { files := FileTree.empty.put cwd .empty, cwd }
  for p in configFiles l.config do d ← takeOver d p
  match Command.configuration d env l.config l.output with
  | .error _ => return d
  | .ok c =>
    for p in c.sources ++ [c.tokens, c.output] do d ← takeOver d p
    return d

def apply : FileChange → IO Unit
  | .remove place => do
    let file := (← IO.currentDir) / Place.text place
    if ← file.isDir then IO.FS.removeDirAll file else IO.FS.removeFile file
  | .makeDir place => IO.FS.createDirAll (Place.text place)
  | .write place content => IO.FS.writeBinFile (Place.text place) content

def report (e : CommandError) : IO UInt32 := do
  for message in e.chain do IO.eprintln message
  return 1

def run (l : CommandLine) : IO UInt32 := do
  let env ← environment
  let d ← snapshot env l
  match l.task with
  | .build output =>
    let start ← IO.monoMsNow
    let (result, after) := Command.build env l.config output d
    for change in d.files.changes [] after.files do apply change
    match result with
    | .error e => report e
    | .ok (r, output) =>
      let duration := Nat.repr ((← IO.monoMsNow) - start) ++ "ms"
      for line in Command.buildLines r output duration do IO.println line
      return 0
  | .check strict =>
    let (lines, failure) := Command.check d env l.config strict
    for line in lines do IO.println line
    match failure with
    | some e => report e
    | none => return 0

end StaticSite.Program

def main (args : List String) : IO UInt32 :=
  match StaticSite.CommandLine.parse? args with
  | some l => StaticSite.Program.run l
  | none => do
    IO.eprintln StaticSite.CommandLine.usage
    return 2
