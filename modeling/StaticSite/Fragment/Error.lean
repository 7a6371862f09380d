import StaticSite.LoadError
import StaticSite.Render.Error
import StaticSite.Template.Error
import StaticSite.Text.Ticked

namespace StaticSite

inductive FragmentError
  | duplicate (name : String)
  | unknown (name : String) (referencedBy : Option String)
  | cycle (names : List String)
  | invalidName (name : String)
  | badSyntax (e : SyntaxError)
  | render (e : RenderError)
  | load (e : LoadError)
  | disk (e : DiskError)
  deriving DecidableEq

namespace FragmentError

def message : FragmentError → String
  | duplicate name => "fragment " ++ Text.ticked name ++ " is already registered"
  | unknown name none => "unknown fragment " ++ Text.ticked name
  | unknown name (some user) =>
    "unknown fragment " ++ Text.ticked name ++ " (referenced by " ++ Text.ticked user ++ ")"
  | cycle names => "cyclic fragment dependency: " ++ " -> ".intercalate names
  | invalidName name => "invalid fragment name " ++ Text.ticked name
  | badSyntax e => e.message
  | render e => e.message
  | load e => e.message
  | disk e => e.report

def causes : FragmentError → List String
  | load e => e.causes
  | disk e => [e.message]
  | _ => []

end FragmentError

end StaticSite
