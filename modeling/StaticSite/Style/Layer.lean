import StaticSite.Config.Basic
import StaticSite.Disk.Basic
import StaticSite.Path.Extension

namespace StaticSite

inductive Layer
  | reset
  | base
  | components
  | utilities
  | overrides
  deriving DecidableEq

structure LayerSource where
  label : String
  content : ByteArray

namespace LayerSource

def ofFile (file : Path × ByteArray) : LayerSource :=
  ⟨file.1.text.map fun c => if c = '\\' then '/' else c, file.2⟩

def isRuleFile (p : Path) : Bool := p.extension? = some "css"

def below (d : Disk) (dir : Path) : List LayerSource := (d.select dir isRuleFile).map ofFile

def besideFragments (d : Disk) (dir : Path) : List LayerSource :=
  (d.select dir fun p => isRuleFile p && d.isFile ((dir.join p).withExtension "html")).map ofFile

end LayerSource

namespace Layer

def all : List Layer := [reset, base, components, utilities, overrides]

def text : Layer → String
  | reset => "reset"
  | base => "base"
  | components => "components"
  | utilities => "utilities"
  | overrides => "overrides"

def directory (c : Config) : Layer → Path
  | utilities => c.utilities
  | l => c.styles.join (.ofText l.text)

/-- The files of a layer. The rules of fragments are components, after all others. -/
def sources (d : Disk) (c : Config) (l : Layer) : List LayerSource :=
  LayerSource.below d (l.directory c) ++
    if l = components then c.fragments.flatMap (LayerSource.besideFragments d) else []

end Layer

end StaticSite
