import StaticSite.Config.Setting.Ini
import StaticSite.Config.Setting.Json5
import StaticSite.Config.Setting.Ron
import StaticSite.Config.Setting.Yaml
import StaticSite.Json.Decode
import StaticSite.Toml.Decode

namespace StaticSite

inductive SettingFormat
  | toml
  | json
  | yaml
  | ini
  | ron
  | json5
  deriving DecidableEq

namespace SettingFormat

def extensions : List (String × SettingFormat) :=
  [("toml", toml), ("json", json), ("yaml", yaml), ("yml", yaml), ("ini", ini), ("ron", ron),
    ("json5", json5)]

def ofExtension? (ext : String) : Option SettingFormat := extensions.lookup ext

def decode? : SettingFormat → String → Option Setting
  | toml, text => (Toml.decode? .toml11 text).map fun ms => .table (Setting.ofMembers ms)
  | json, text => (Json.decode? text >>= Datum.value?).map Setting.ofValue
  | yaml, text => Setting.ofYaml? text
  | ini, text => Setting.ofIni? text
  | ron, text => Setting.ofRon? text
  | json5, text => Setting.ofJson5? text

end SettingFormat

end StaticSite
