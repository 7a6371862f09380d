import StaticSite.Path.Normal

namespace StaticSite

inductive ConfigFault
  | notFound (file : Path)
  | malformed (file : Path)
  | emptyName
  | badStylesheet
  | outputAboveRoot
  | outputHoldsTokens (tokens : Place)
  | outputOverlaps (source : Place)
  deriving DecidableEq

def ConfigFault.message : ConfigFault → String
  | notFound file => "Configuration file not found: " ++ file.text
  | malformed file => "Failed to parse config file: " ++ file.text
  | emptyName => "project.name cannot be empty"
  | badStylesheet => "build.stylesheet must be a relative path ending in .css"
  | outputAboveRoot => "paths.output must not be the project root or one of its parents"
  | outputHoldsTokens tokens => "paths.output contains the token file " ++ tokens.text
  | outputOverlaps source => "paths.output overlaps source directory " ++ source.text

end StaticSite
