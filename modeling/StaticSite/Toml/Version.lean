namespace StaticSite.Toml

/-- The later version has more escapes, times without seconds, and inline tables that go on over
several lines. -/
inductive Version
  | toml10
  | toml11
  deriving DecidableEq

namespace Version

def nestingLimit : Version → Nat
  | toml10 => 79
  | toml11 => 80

def keyLimit : Version → Nat
  | toml10 => 79
  | toml11 => 80

def isOpenBelow (v : Version) : Bool := v = toml10

end Version

end StaticSite.Toml
