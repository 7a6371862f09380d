import StaticSite.Disk.Basic
import StaticSite.Fragment.File
import StaticSite.Registry.Basic

namespace StaticSite.Registry

def loadFile (dir : Path) (r : Registry) (file : Path × ByteArray) :
    Except FragmentError Registry := do
  let content ← (Disk.textOf file.2).mapError .disk
  r.register (← Fragment.parse content (Fragment.nameOf file.1) (dir.join file.1))

def isFragmentFile (p : Path) : Bool := p.extension? = some "html"

def loadDirectory (d : Disk) (r : Registry) (dir : Path) : Except FragmentError Registry :=
  (d.select dir isFragmentFile).foldlM (loadFile dir) r

def load (d : Disk) (dirs : List Path) : Except FragmentError Registry := do
  let r ← dirs.foldlM (loadDirectory d) {}
  r.validate
  return r

end StaticSite.Registry
