import StaticSite.Disk.Work

namespace StaticSite.Asset

/-- Names that start with a dot are hidden, with all that lies below them. -/
def isHidden (name : String) : Bool := name.toList.head? = some '.'

def files (d : Disk) (dir : Path) : List (Path × ByteArray) :=
  ((d.filesBelow dir).filter fun f => !f.1.any isHidden).map fun f => (Path.ofNames f.1, f.2)

def copy (source target : Path) : Work DiskError Nat := do
  let fs := files (← get) source
  fs.forM fun f => Work.writeFile (target.join f.1) f.2
  return fs.length

end StaticSite.Asset
