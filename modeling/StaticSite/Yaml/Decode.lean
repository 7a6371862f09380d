import StaticSite.Yaml.Node
import StaticSite.Yaml.Scalar
import StaticSite.Yaml.V11.Scan

namespace StaticSite.Yaml

def nestingLimit : Nat := 128

def followLimit : Nat := 100

abbrev Following := StateT Nat Option

def follow (targets : List (Nat × Node)) : Node → Following Node
  | .alias n => do
    let left ← get
    if left = 0 then failure
    set (left - 1)
    n.bind fun n => targets.lookup n
  | node => return node

def under (p : Properties) (d : Datum) : Datum :=
  if p.tag.any fun t => t.text.toList.head? = some '!' then .tagged d else d

def datum (targets : List (Nat × Node)) : Nat → Node → Following Datum
  | depth, node => do
    match depth, ← follow targets node with
    | _, .alias _ => failure
    | _, .scalar p text plain => return .scalar (scalar (p.tag.map Tag.text) text plain)
    | 0, _ => failure
    | depth + 1, .list p items => do
      return under p (.list (← items.mapM (datum targets depth)))
    | depth + 1, .map p members => do
      let members ← members.mapM fun (k, v) => do
        let key ← (← datum targets depth k).text?
        return (key, ← datum targets depth v)
      return under p (.map members)

def decode? (text : String) : Option Datum := do
  let c : Composer := { version := .yaml11, tokens := ← V11.tokens? text }
  let root := (← c.document?).getD c.left
  (datum root.targets nestingLimit root).run' (followLimit * root.size)

end StaticSite.Yaml
