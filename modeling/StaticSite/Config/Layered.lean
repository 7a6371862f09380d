import StaticSite.Config.File
import StaticSite.Config.Setting.Format
import StaticSite.Text.Utf8

namespace StaticSite

abbrev Environment := List (String × String)

namespace Config

def variableLead : List Char := "tessera__".toList

def dotted : List Char → List Char
  | '_' :: '_' :: cs => '.' :: dotted cs
  | c :: cs => c :: dotted cs
  | [] => []

/-- The small letter of a character, if that is an ASCII letter: those of the ASCII capitals and of
the sign for the kelvin are. -/
def smallLetter (c : Char) : Char := if c = '\u212a' then 'k' else c.toLower

def variablePath? (name : String) : Option String :=
  let cs := name.toList.map smallLetter
  if variableLead.isPrefixOf cs then
    some (String.ofList (dotted (cs.drop variableLead.length)))
  else none

def setAll (base : Setting) (new : List (String × Setting)) : Setting :=
  new.foldl (fun s m => s.set m.1 m.2) base

/-- The file that is meant: one with just this path, or with a further extension. -/
def settingsFile? (d : Disk) (file : Path) : Option (SettingFormat × Path) :=
  if d.isFile file then do
    return (← file.extension? >>= SettingFormat.ofExtension?, file)
  else
    SettingFormat.extensions.findSome? fun (ext, format) =>
      ((file.addExtension? ext).filter d.isFile).map fun p => (format, p)

def settingReading : ConfigReading Setting where
  fields?
    | names, .table members => some (members.filter fun m => names.contains m.1)
    | names, .list items => some (names.zip items)
    | _, _ => none
  text? := Setting.text?
  maybeText?
    | .nothing => some none
    | s => s.text?.map some
  texts?
    | .list items => items.mapM Setting.text?
    | _ => none
  count? := Setting.count?

def settingsText (content : ByteArray) : String :=
  Text.ofBytes <| match content.data.toList with
    | 0xEF :: 0xBB :: 0xBF :: bytes => bytes
    | bytes => bytes

def settings? (d : Disk) (env : Environment) (file : Path) : Option Setting := do
  let (format, p) ← settingsFile? d file
  let content ← (d.read p).toOption
  match ← format.decode? (settingsText content) with
  | .table members =>
    let overrides := env.filterMap fun (name, value) =>
      (variablePath? name).map fun path => (path, Setting.text value)
    return setAll (setAll (.table []) members) overrides
  | _ => none

def loadLayered (d : Disk) (env : Environment) (file : Path) : Except LoadError Config :=
  match settings? d env file >>= settingReading.config? (rootOf file) with
  | none => .error .settings
  | some c => do
    c.validate d.cwd
    return c

end Config

end StaticSite
