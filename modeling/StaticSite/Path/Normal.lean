import StaticSite.Path.Component

/-! Normal forms: the place that a path names, by its spelling alone. -/

namespace StaticSite

abbrev Place := List String

namespace Place

def path (names : Place) : Path := ⟨true, names⟩

def text (names : Place) : String := (path names).text

def step (names : Place) : Component → Place
  | .root => []
  | .here => names
  | .up => names.dropLast
  | .name s => names ++ [s]

end Place

namespace Path

def normalize? (cwd : Place) (p : Path) : Option Place :=
  if p.isEmpty then none else some (p.components.foldl Place.step cwd)

end Path

end StaticSite
