import StaticSite.Value.Basic

namespace StaticSite

structure Position where
  line : Nat
  column : Nat
  deriving DecidableEq

namespace Position

def next (p : Position) (c : Char) : Position :=
  if c = '\n' then ⟨p.line + 1, 1⟩ else ⟨p.line, p.column + 1⟩

end Position

structure Location where
  source : String
  pos : Position
  deriving DecidableEq

def Location.text (l : Location) : String :=
  l.source ++ ":" ++ Nat.repr l.pos.line ++ ":" ++ Nat.repr l.pos.column

/-- Where a lookup starts: at the innermost item of a loop that has the key, and else at the
configuration (`scope`); at the current item; or at what is known of the current round. -/
inductive Root
  | scope
  | this
  | index
  | key
  | first
  | last
  deriving DecidableEq

structure Reference where
  text : String
  root : Root
  segments : List String
  deriving DecidableEq

inductive Output
  | reference (r : Reference)
  | children
  | classes
  | accessible
  | attributes
  deriving DecidableEq

inductive Argument
  | reference (r : Reference)
  | literal (v : Value)
  deriving DecidableEq

structure Call where
  name : String
  base : Option Reference
  args : List (String × Argument)
  deriving DecidableEq

inductive Node
  | text (s : String)
  | output (what : Output) (raw : Bool) (pos : Position)
  | cond (test : Reference) (negate : Bool) (yes no : List Node) (pos : Position)
  | each (source : Reference) (body no : List Node) (pos : Position)
  | invoke (call : Call) (block : Option (List Node)) (pos : Position)

structure Template where
  source : String
  nodes : List Node

namespace Template

def locate (t : Template) (pos : Position) : Location := ⟨t.source, pos⟩

def addName (names : List String) (name : String) : List String :=
  if names.contains name then names else names ++ [name]

mutual

def nodeNames (names : List String) : Node → List String
  | .text _ => names
  | .output _ _ _ => names
  | .cond _ _ yes no _ => nodesNames (nodesNames names yes) no
  | .each _ body no _ => nodesNames (nodesNames names body) no
  | .invoke call none _ => addName names call.name
  | .invoke call (some block) _ => nodesNames (addName names call.name) block

def nodesNames (names : List String) : List Node → List String
  | [] => names
  | n :: ns => nodesNames (nodeNames names n) ns

end

def invocations (t : Template) : List String := nodesNames [] t.nodes

end Template

end StaticSite
