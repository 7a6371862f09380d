import StaticSite.Build.Error

namespace StaticSite

inductive CommandError
  | config (file : Path) (e : LoadError)
  | output (e : LoadError)
  | build (e : StageError)
  | check (e : BuildError)
  | warnings (count : Nat)
  deriving DecidableEq

namespace CommandError

def chain : CommandError → List String
  | config file e => ("Failed to load configuration from " ++ file.text) :: e.message :: e.causes
  | output e => "Invalid output directory" :: e.message :: e.causes
  | build e => "Build failed" :: e.message :: e.causes
  | check e => "Validation failed" :: e.message :: e.causes
  | warnings count => ["Validation failed with " ++ Nat.repr count ++ " warning(s) (strict mode)"]

end CommandError

end StaticSite
