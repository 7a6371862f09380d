import StaticSite.Path.Component

namespace StaticSite.Path

def splitName (name : String) : String × Option String :=
  let rev := name.toList.reverse
  match rev.dropWhile (· ≠ '.') with
  | [] | ['.'] => (name, none)
  | _ :: stem =>
    (String.ofList stem.reverse, some (String.ofList (rev.takeWhile (· ≠ '.')).reverse))

def extension? (p : Path) : Option String := p.fileName?.bind fun n => (splitName n).2

/-- Puts `ext` after the stem of the last name, or nothing if it is empty; what follows that name is
dropped. A path that does not end in a name stays as it is. -/
def setExtension (p : Path) (ext : String) : Path :=
  match p.fileName?, p.meantReverse p.segments.reverse with
  | some n, _ :: rest =>
    let stem := (splitName n).1
    ⟨p.isAbsolute, (((if ext = "" then stem else stem ++ "." ++ ext) :: rest).reverse)⟩
  | _, _ => p

def addExtension? (p : Path) (ext : String) : Option Path :=
  match p.fileName?, p.meantReverse p.segments.reverse with
  | some n, _ :: rest => some ⟨p.isAbsolute, ((n ++ "." ++ ext) :: rest).reverse⟩
  | _, _ => none

/-- The path with another extension. The old one is cut off the text first and what is left read
again, so that a name such as `..toml` leaves the path that `..` means. -/
def withExtension (p : Path) (ext : String) : Path :=
  match p.extension? with
  | none => p.setExtension ext
  | some old =>
    let cs := p.text.toList
    (ofText (String.ofList (cs.take (cs.length - old.length)))).setExtension ext

end StaticSite.Path
