import StaticSite.Asset
import StaticSite.Build.Error
import StaticSite.Page.Directory
import StaticSite.Registry.Directory
import StaticSite.Style.Sheet
import StaticSite.Token.File

namespace StaticSite.Config

def tokenStyle (c : Config) : TokenStyle := .ofLead c.tokenLead

def shell (c : Config) : Shell :=
  { project := c.name, lang := c.lang, description := c.description, stylesheet := c.stylesheet }

def declarationsPath (c : Config) : Path := c.output.join (.ofText "css/tokens.css")

/-- Makes the output directory anew, which is not taken away unless the configuration is valid. -/
def clean (c : Config) : Work BuildError Unit := do
  Work.ask fun d => (c.validate d.cwd).mapError .load
  Work.mapError .disk do
    if (← get).contains c.output then Work.removeTree c.output
    Work.makeDirs c.output

def buildTokens (c : Config) : Work BuildError (TokenSet × String) := do
  let tokens ← Work.ask fun d => (TokenSet.load d c.tokens).mapError .load
  Work.mapError .tokens do
    let css ← Work.ask fun _ => (c.tokenStyle.css tokens).mapError .value
    Work.mapError .disk (Work.writeFile c.declarationsPath css.toUTF8)
    return (tokens, css)

def buildStyles (c : Config) (declarations : String) : Work BuildError Nat :=
  Work.mapError .styles do
    let css ← Work.ask fun d => styleSheet d c declarations
    Work.writeFile (c.output.join (.ofText c.stylesheet)) css.toUTF8
    return css.utf8ByteSize

def writePages (c : Config) (r : Registry) (pages : List PageSource) (race : Race := .inOrder) :
    Work PageError Nat := do
  let documents ← Work.ask fun _ => c.shell.renderAll r pages race
  Work.mapError .disk do
    documents.forM fun doc => Work.writeFile (c.output.join doc.1) doc.2.toUTF8
    return documents.length

def buildPages (c : Config) (race : Race := .inOrder) : Work BuildError (Nat × Nat) := do
  let r ← Work.ask fun d => (Registry.load d c.fragments).mapError .fragment
  let pages ← Work.ask fun d => (PageSource.loadAll d c.pages).mapError fun e => .pages (.load e)
  return (r.size, ← Work.mapError .pages (c.writePages r pages race))

def copyAssets (c : Config) : Work BuildError (Nat × Nat) :=
  Work.mapError .assets do
    let assets ← Asset.copy c.assets (c.output.join (.ofText "assets"))
    let fonts ← Asset.copy c.fonts (c.output.join (.ofText "fonts"))
    return (assets, fonts)

end StaticSite.Config
