import StaticSite.Json.Decode
import StaticSite.Path.Extension
import StaticSite.Toml.Decode
import StaticSite.Yaml.Decode

namespace StaticSite

inductive DataFormat
  | toml
  | yaml
  | json
  deriving DecidableEq

namespace DataFormat

def ofExtension? : String → Option DataFormat
  | "toml" => some toml
  | "yaml" | "yml" => some yaml
  | "json" => some json
  | _ => none

def ofPath? (p : Path) : Option DataFormat := p.extension? >>= ofExtension?

def decode? : DataFormat → String → Option Datum
  | toml, text => Toml.datum? text
  | yaml, text => Yaml.decode? text
  | json, text => Json.decode? text

def positional : DataFormat → Positional
  | toml => .lenient
  | yaml => .refused
  | json => .exact

end DataFormat

def malformedText : String := "<decoder>"

end StaticSite
