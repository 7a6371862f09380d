import StaticSite.Config.Fault
import StaticSite.Datum.Format
import StaticSite.Disk.Error
import StaticSite.Page.Declaration
import StaticSite.Token.Basic

namespace StaticSite

inductive ParseFault
  | malformed
  | tokens (f : TokenFault)
  | page (f : PageFault)
  deriving DecidableEq

def ParseFault.message : ParseFault → String
  | malformed => malformedText
  | tokens f => f.message
  | page f => f.message

inductive LoadError
  | config (f : ConfigFault)
  | parse (file : Path) (f : ParseFault)
  | frontMatter (file : Path)
  | unsupported (file : Path)
  | disk (e : DiskError)
  | settings
  deriving DecidableEq

def DiskError.report (e : DiskError) : String := "IO error: " ++ e.message

namespace LoadError

def message : LoadError → String
  | config f => "Configuration error: " ++ f.message
  | parse file f => "Parse error in " ++ file.text ++ ": " ++ f.message
  | frontMatter file => "Frontmatter error in " ++ file.text ++ ": " ++ malformedText
  | unsupported file => "Unsupported file format: " ++ file.text
  | disk e => e.report
  | settings => "Config crate error: " ++ malformedText

def causes : LoadError → List String
  | config (.malformed _) | settings => [malformedText]
  | disk e => [e.message]
  | _ => []

end LoadError

end StaticSite
