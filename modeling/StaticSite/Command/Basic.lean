import StaticSite.Build.Basic
import StaticSite.Build.Check
import StaticSite.Command.Error
import StaticSite.Config.Layered

namespace StaticSite.Command

/-- The configuration of a project; an output directory that is given here starts at the working
directory. -/
def configuration (d : Disk) (env : Environment) (file : Path) (output : Option Path) :
    Except CommandError Config := do
  let c ← (Config.loadLayered d env file).mapError (.config file)
  match output with
  | none => return c
  | some p =>
    let c := { c with paths := { c.paths with output := (Place.path d.cwd).join p } }
    (c.validate d.cwd).mapError .output
    return c

def build (env : Environment) (file : Path) (output : Option Path) :
    Work CommandError (BuildReport × Path) := do
  let c ← Work.ask fun d => configuration d env file output
  return (← Work.mapError .build c.build, c.output)

def buildLines (r : BuildReport) (output : Path) (duration : String) : List String :=
  ["", "  Build completed successfully!", "",
    "  Tokens:     " ++ Nat.repr r.tokens,
    "  Stylesheet: " ++ Nat.repr r.stylesheetBytes ++ " bytes",
    "  Fragments:  " ++ Nat.repr r.fragments,
    "  Pages:      " ++ Nat.repr r.pages,
    "  Assets:     " ++ Nat.repr r.assets,
    "  Fonts:      " ++ Nat.repr r.fonts, "",
    "  Duration:   " ++ duration,
    "  Output:     " ++ output.text, ""]

def configLines : List String :=
  ["  ✓ Configuration valid", "", "Checking tokens, fragments and pages..."]

def warningLines : List String → List String
  | [] => []
  | ws => ["", "Warnings:"] ++ ws.map fun w => "  ⚠ " ++ w

def checkLines (r : CheckReport) : List String :=
  ["  ✓ " ++ Nat.repr r.tokens ++ " tokens",
    "  ✓ " ++ Nat.repr r.fragments ++ " fragments",
    "  ✓ " ++ Nat.repr r.pages ++ " pages"] ++ warningLines r.warnings

def check (d : Disk) (env : Environment) (file : Path) (strict : Bool) :
    List String × Option CommandError :=
  let lines := ["Checking configuration..."]
  match configuration d env file none with
  | .error e => (lines, some e)
  | .ok c =>
    let lines := lines ++ configLines
    match c.check d with
    | .error e => (lines, some (.check e))
    | .ok r =>
      let lines := lines ++ checkLines r
      if strict && !r.warnings.isEmpty then (lines, some (.warnings r.warnings.length))
      else (lines ++ ["", "✓ All checks passed"], none)

end StaticSite.Command
