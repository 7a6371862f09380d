import StaticSite.LoadError
import StaticSite.Page.Data

namespace StaticSite.PageDecl

def parse (content : String) (format : DataFormat) (file : Path) : Except LoadError PageDecl :=
  match format.decode? content >>= ofDatum? format.positional with
  | none => .error (.parse file .malformed)
  | some d => do
    d.check.mapError fun f => LoadError.parse file (.page f)
    return d

end StaticSite.PageDecl
