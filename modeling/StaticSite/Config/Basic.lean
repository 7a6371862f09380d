import StaticSite.LoadError
import StaticSite.Text.Space

namespace StaticSite

structure ProjectPaths where
  tokens : Path := .ofText "tokens.toml"
  pages : Path := .ofText "pages"
  fragments : List Path := [.ofText "elements", .ofText "partials"]
  styles : Path := .ofText "styles"
  utilities : Path := .ofText "utilities"
  fonts : Path := .ofText "fonts"
  assets : Path := .ofText "assets"
  output : Path := .ofText "dist"
  deriving DecidableEq

structure Config where
  name : String
  lang : String := "en"
  description : Option String := none
  paths : ProjectPaths := {}
  stylesheet : String := "css/main.css"
  tokenLead : Option String := none
  debounce : Nat := 100
  root : Path
  deriving DecidableEq

namespace Config

def resolve (c : Config) (p : Path) : Path := c.root.join p

def tokens (c : Config) : Path := c.resolve c.paths.tokens

def pages (c : Config) : Path := c.resolve c.paths.pages

def fragments (c : Config) : List Path := c.paths.fragments.map c.resolve

def styles (c : Config) : Path := c.resolve c.paths.styles

def utilities (c : Config) : Path := c.resolve c.paths.utilities

def fonts (c : Config) : Path := c.resolve c.paths.fonts

def assets (c : Config) : Path := c.resolve c.paths.assets

def output (c : Config) : Path := c.resolve c.paths.output

def sources (c : Config) : List Path :=
  c.fonts :: (c.fragments ++ [c.pages, c.styles, c.utilities, c.assets])

def place (cwd : Place) (p : Path) : Except LoadError Place :=
  match p.normalize? cwd with
  | some place => .ok place
  | none => .error (.disk .emptyPath)

def overlap (p q : Place) : Bool := p.isPrefixOf q || q.isPrefixOf p

def checkStylesheet (c : Config) : Except LoadError Unit :=
  if (Path.ofText c.stylesheet).isAbsolute || !c.stylesheet.endsWith ".css" then
    .error (.config .badStylesheet)
  else .ok ()

def checkSource (cwd output : Place) (source : Path) : Except LoadError Unit := do
  let source ← place cwd source
  if overlap output source then .error (.config (.outputOverlaps source)) else .ok ()

/-- The output directory is emptied before every build, so neither the root nor anything that a
build reads may lie in it, nor it in a directory that a build reads. -/
def checkOutput (cwd : Place) (c : Config) : Except LoadError Unit := do
  let root ← place cwd c.root
  let output ← place cwd c.output
  if output.isPrefixOf root then throw (.config .outputAboveRoot)
  let tokens ← place cwd c.tokens
  if output.isPrefixOf tokens then throw (.config (.outputHoldsTokens tokens))
  c.sources.forM (checkSource cwd output)

def validate (cwd : Place) (c : Config) : Except LoadError Unit := do
  if Text.isBlank c.name then throw (.config .emptyName)
  c.checkStylesheet
  c.checkOutput cwd

end Config

end StaticSite
