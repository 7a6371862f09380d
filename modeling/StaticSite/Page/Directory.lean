import StaticSite.Disk.Basic
import StaticSite.Page.File
import StaticSite.Page.Site

namespace StaticSite.PageSource

def ofFile (dir : Path) (file : Path × ByteArray) : Except LoadError PageSource :=
  match DataFormat.ofPath? file.1 with
  | none => .error (.unsupported (dir.join file.1))
  | some format => do
    let text ← (Disk.textOf file.2).mapError .disk
    return ⟨file.1, ← PageDecl.parse text format (dir.join file.1)⟩

def isPageFile (p : Path) : Bool := (DataFormat.ofPath? p).isSome

def loadAll (d : Disk) (dir : Path) : Except LoadError (List PageSource) :=
  (d.select dir isPageFile).mapM (ofFile dir)

end StaticSite.PageSource
