import StaticSite.Disk.Basic
import StaticSite.LoadError
import StaticSite.Token.Flatten

namespace StaticSite.TokenSet

def parse (content : String) (format : DataFormat) (file : Path) : Except LoadError TokenSet :=
  match format.decode? content >>= Datum.value? with
  | none => .error (.parse file .malformed)
  | some v => (ofValue v).mapError fun f => .parse file (.tokens f)

def load (d : Disk) (file : Path) : Except LoadError TokenSet :=
  match DataFormat.ofPath? file with
  | none => .error (.unsupported file)
  | some format => do parse (← (d.readText file).mapError .disk) format file

end StaticSite.TokenSet
