import StaticSite.Style.Layer
import StaticSite.Text.Space

namespace StaticSite

def LayerSource.block (s : LayerSource) : Except DiskError String := do
  let content ← Disk.textOf s.content
  return "/* " ++ s.label ++ " */\n" ++ String.ofList (Text.trimRight content.toList) ++ "\n"

def Layer.block (l : Layer) (sources : List LayerSource) : Except DiskError String := do
  if sources.isEmpty then return ""
  let blocks ← sources.mapM LayerSource.block
  return "\n@layer " ++ l.text ++ " \x7b\n" ++ String.join blocks ++ "\x7d\n"

def styleSheet (d : Disk) (c : Config) (declarations : String) : Except DiskError String := do
  let blocks ← Layer.all.mapM fun l => l.block (l.sources d c)
  return "@layer " ++ ", ".intercalate (Layer.all.map Layer.text) ++ ";\n\n" ++ declarations ++
    String.join blocks

end StaticSite
