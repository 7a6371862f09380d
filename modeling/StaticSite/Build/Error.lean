import StaticSite.Build.State
import StaticSite.Page.Site
import StaticSite.Token.Css

namespace StaticSite

inductive TokenError
  | disk (e : DiskError)
  | value (f : TokenValueFault)
  deriving DecidableEq

namespace TokenError

def message : TokenError → String
  | disk e => e.report
  | value f => f.message

def causes : TokenError → List String
  | disk e => [e.message]
  | value _ => []

end TokenError

inductive BuildError
  | disk (e : DiskError)
  | load (e : LoadError)
  | fragment (e : FragmentError)
  | tokens (e : TokenError)
  | styles (e : DiskError)
  | pages (e : PageError)
  | assets (e : DiskError)
  deriving DecidableEq

namespace BuildError

def message : BuildError → String
  | disk e => e.report
  | load e => e.message
  | fragment e => e.message
  | tokens e => "token error: " ++ e.message
  | styles e => "stylesheet error: " ++ e.report
  | pages e => "page error: " ++ e.message
  | assets e => "asset error: " ++ e.report

def causes : BuildError → List String
  | disk e => [e.message]
  | load e => e.causes
  | fragment e => e.causes
  | tokens e => e.message :: e.causes
  | styles e | assets e => [e.report, e.message]
  | pages e => e.message :: e.causes

end BuildError

structure StageError where
  stage : BuildState
  error : BuildError
  deriving DecidableEq

namespace StageError

def message (e : StageError) : String := e.stage.text ++ " stage failed: " ++ e.error.message

def causes (e : StageError) : List String := e.error.message :: e.error.causes

end StageError

end StaticSite
