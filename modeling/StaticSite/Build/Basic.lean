import StaticSite.Build.Stage

namespace StaticSite

structure BuildReport where
  tokens : Nat
  stylesheetBytes : Nat
  fragments : Nat
  pages : Nat
  assets : Nat
  fonts : Nat
  states : List BuildState
  deriving DecidableEq

namespace Config

def stage (s : BuildState) (x : Work BuildError α) : Work StageError α :=
  Work.mapError (fun e => ⟨s, e⟩) x

def build (c : Config) (race : Race := .inOrder) : Work StageError BuildReport := do
  stage .cleaning c.clean
  let (tokens, declarations) ← stage .tokens c.buildTokens
  let stylesheetBytes ← stage .styles (c.buildStyles declarations)
  let (fragments, pages) ← stage .pages (c.buildPages race)
  let (assets, fonts) ← stage .assets c.copyAssets
  return {
    tokens := tokens.size, stylesheetBytes, fragments, pages, assets, fonts
    states := BuildState.idle.onwards }

end Config

structure Builder where
  config : Config
  state : BuildState := .idle

namespace Builder

def reset (b : Builder) : Builder := { b with state := .idle }

def endState : Except StageError BuildReport → BuildState
  | .ok _ => .done
  | .error _ => .failed

def build (b : Builder) (race : Race := .inOrder) :
    StateM Disk (Except StageError BuildReport × Builder) := do
  let r ← (b.config.build race).run
  return (r, { b with state := endState r })

def rebuild (b : Builder) (race : Race := .inOrder) :
    StateM Disk (Except StageError BuildReport × Builder) := do
  let (r, b) ← b.build race
  return (r, b.reset)

end Builder

end StaticSite
