import StaticSite.Config.Setting
import StaticSite.Yaml.V12.Scan
import StaticSite.Yaml.V12.Word

namespace StaticSite.Setting

open Yaml Yaml.V12

def ofWord? : Word → Option Setting
  | .null => some nothing
  | .bool b => some (bool b)
  | .integer n => some (integer n)
  | .real s => (V12.real? s.toList).map float
  | .text s => some (text s)

/-- What a node is as the key of a member: nothing, so that the next node is taken for the key, or
something that gives no key, or a word. -/
def keyOf (targets : List (Nat × Yaml.Node)) (node : Yaml.Node) : Option (Option Word) :=
  let target := match node with
    | .alias n => n.bind fun n => targets.lookup n
    | node => some node
  match target with
  | some (.scalar p s plain) => (Word.ofScalar? p s plain).map some
  | some _ => some none
  | none => none

def entries? (keyOf : Yaml.Node → Option (Option Word)) :
    Option (Option Word) → List Yaml.Node → Option (List (Word × Yaml.Node))
  | _, [] => some []
  | none, n :: ns => entries? keyOf (keyOf n) ns
  | some key, n :: ns => do return (← key, n) :: (← entries? keyOf none ns)

def ofNode? (targets : List (Nat × Yaml.Node)) : Nat → Yaml.Node → Option (Option Setting)
  | 0, _ => none
  | fuel + 1, .alias n =>
    match n.bind fun n => targets.lookup n with
    | some target => ofNode? targets fuel target
    | none => some none
  | _ + 1, .scalar p s plain =>
    match Word.ofScalar? p s plain with
    | some w => (ofWord? w).map some
    | none => some none
  | fuel + 1, .list _ items => do
    let items ← items.mapM (ofNode? targets fuel)
    return some (list (items.map (·.getD nothing)))
  | fuel + 1, .map _ members => do
    let entries ← entries? (keyOf targets) none (members.flatMap fun (k, v) => [k, v])
    if !(entries.map Prod.fst).Nodup then failure
    let members ← entries.mapM fun (k, n) => do
      return (← k.key?, (← ofNode? targets fuel n).getD nothing)
    return some (table (members.foldl (fun ms (k, s) => changeMember k (fun _ => s) ms) []))

def ofYaml? (content : String) : Option Setting := do
  let c : Composer := { version := .yaml12, tokens := ← V12.tokens? content }
  match ← c.document? with
  | some root => return (← ofNode? root.targets (root.size + 1) root).getD nothing
  | none => return table []

end StaticSite.Setting
