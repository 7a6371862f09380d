import StaticSite.Template.Basic
import StaticSite.Text.Ticked

namespace StaticSite

inductive RenderFault
  | unknownFragment (name : String)
  | undeclared (name : String)
  | notIterable (reference kind : String)
  | notText (reference kind : String)
  | propsNotMap (name reference kind : String)
  | tooDeep (name : String)
  | reported (text : String)
  deriving DecidableEq

def RenderFault.message : RenderFault → String
  | unknownFragment name => "unknown fragment " ++ Text.ticked name
  | undeclared name => Text.ticked name ++ " is not a declared dependency"
  | notIterable reference kind =>
    "cannot iterate over " ++ Text.ticked reference ++ ": found " ++ kind
  | notText reference kind =>
    "cannot render " ++ Text.ticked reference ++ " as text: found " ++ kind
  | propsNotMap name reference kind =>
    "props for " ++ Text.ticked name ++ " must be a map, " ++ Text.ticked reference ++ " is a " ++
      kind
  | tooDeep name => "fragment " ++ Text.ticked name ++ " is nested too deep"
  | reported text => text

inductive RenderError
  | raised (fragment : String) (location : Option Location) (fault : RenderFault)
  | nested (fragment : String) (location : Option Location) (inner : RenderError)
  deriving DecidableEq

namespace RenderError

def fragment : RenderError → String
  | raised f _ _ | nested f _ _ => f

def location : RenderError → Option Location
  | raised _ l _ | nested _ l _ => l

def innermost : RenderError → RenderError
  | raised f l x => raised f l x
  | nested _ _ inner => inner.innermost

def fault : RenderError → RenderFault
  | raised _ _ x => x
  | nested _ _ inner => inner.fault

def chain : RenderError → List String
  | raised f _ _ => [f]
  | nested f _ inner => f :: inner.chain

def opening (fragment : String) (location : Option Location) : String :=
  "failed to render " ++ Text.ticked fragment ++
    (match location with
      | some l => " at " ++ l.text
      | none => "") ++ ": "

def message : RenderError → String
  | raised f l x => opening f l ++ x.message
  | nested f l inner => opening f l ++ inner.message

end RenderError

inductive RenderStop
  | raised (location : Option Location) (fault : RenderFault)
  | nested (location : Option Location) (inner : RenderError)

namespace RenderStop

def locate (l : Location) : RenderStop → RenderStop
  | raised none x => raised (some l) x
  | nested none e => nested (some l) e
  | s => s

def inFragment (fragment : String) : RenderStop → RenderError
  | raised l x => .raised fragment l x
  | nested l e => .nested fragment l e

end RenderStop

end StaticSite
