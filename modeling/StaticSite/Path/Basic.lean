import StaticSite.Text.Cut

namespace StaticSite

/-- What stands between the slashes, after the first one if the path is absolute. Empty segments and
dots stay, so that a path is shown the way it was given. -/
structure Path where
  isAbsolute : Bool
  segments : List String
  deriving DecidableEq

namespace Path

def segmentsOf : List Char → List String
  | [] => []
  | c :: cs => (Text.pieces '/' (c :: cs)).map String.ofList

def ofText (s : String) : Path :=
  match s.toList with
  | '/' :: cs => ⟨true, segmentsOf cs⟩
  | cs => ⟨false, segmentsOf cs⟩

def ofNames (names : List String) : Path := ⟨false, names⟩

def text (p : Path) : String :=
  (if p.isAbsolute then "/" else "") ++ "/".intercalate p.segments

def isEmpty (p : Path) : Bool := !p.isAbsolute && p.segments.isEmpty

def openSegments (p : Path) : List String :=
  if p.segments.getLast? = some "" then p.segments.dropLast else p.segments

/-- `q` seen from `p`: an absolute `q` stands for itself, and an empty one puts a slash at the
end. -/
def join (p q : Path) : Path :=
  if q.isAbsolute then q
  else if p.segments.isEmpty then ⟨p.isAbsolute, q.segments⟩
  else ⟨p.isAbsolute, p.openSegments ++ if q.segments.isEmpty then [""] else q.segments⟩

end Path

end StaticSite
