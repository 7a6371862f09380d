import StaticSite.Yaml.Cursor
import StaticSite.Yaml.Token

namespace StaticSite.Yaml

structure Tag where
  base : String
  suffix : String
  deriving DecidableEq

def Tag.text (t : Tag) : String := t.base ++ t.suffix

def tagBase : String := "tag:yaml.org,2002:"

structure Properties where
  anchor : Option Nat := none
  tag : Option Tag := none

/-- An alias stands for the last node with its number, or for none if that was still open. -/
inductive Node
  | alias (n : Option Nat)
  | scalar (p : Properties) (text : String) (plain : Bool)
  | list (p : Properties) (items : List Node)
  | map (p : Properties) (members : List (Node × Node))

namespace Node

mutual

def size : Node → Nat
  | .alias _ | scalar _ _ _ => 1
  | list _ items => 2 + sizes items
  | map _ members => 2 + memberSizes members

def sizes : List Node → Nat
  | [] => 0
  | n :: ns => n.size + sizes ns

def memberSizes : List (Node × Node) → Nat
  | [] => 0
  | (k, v) :: ms => k.size + v.size + memberSizes ms

end

mutual

def anchored : Node → List (Nat × Node)
  | .alias _ => []
  | scalar p text plain => p.anchor.toList.map (·, scalar p text plain)
  | list p items => p.anchor.toList.map (·, list p items) ++ anchoredItems items
  | map p members => p.anchor.toList.map (·, map p members) ++ anchoredMembers members

def anchoredItems : List Node → List (Nat × Node)
  | [] => []
  | n :: ns => n.anchored ++ anchoredItems ns

def anchoredMembers : List (Node × Node) → List (Nat × Node)
  | [] => []
  | (k, v) :: ms => k.anchored ++ v.anchored ++ anchoredMembers ms

end

def targets (root : Node) : List (Nat × Node) := root.anchored.reverse

end Node

structure Composer where
  version : Version
  tokens : List Token
  names : List (String × Nat) := []
  opened : List Nat := []
  anchors : Nat := 0
  handles : List (String × String) := []

namespace Composer

def peek (c : Composer) : Option Token := c.tokens.head?

def skip (c : Composer) : Composer := { c with tokens := c.tokens.drop 1 }

def nextIs (ts : List Token) (c : Composer) : Bool := c.peek.any ts.contains

def left (c : Composer) : Node := .scalar {} (if c.version = .yaml11 then "" else "~") true

/-- Gives a name its number. In the earlier version that is how many other names there were before,
so that a node whose name is not new shares its number with the node whose name is the next new
one. -/
def name (a : String) (c : Composer) : Nat × Composer :=
  let n := if c.version = .yaml11 then c.names.length else c.anchors
  (n, { c with names := (a, n) :: c.names.filter (·.1 ≠ a), anchors := c.anchors + 1 })

def resolve? (handle suffix : String) (c : Composer) : Option Tag :=
  match c.handles.lookup handle with
  | some base => some ⟨base, suffix⟩
  | none =>
    if handle = "!!" then some ⟨tagBase, suffix⟩
    else if handle = "" || handle = "!" then some ⟨handle, suffix⟩
    else none

def properties? (c : Composer) : Option (Properties × Composer) :=
  match c.tokens with
  | .anchor a :: .tag h s :: _ | .tag h s :: .anchor a :: _ => do
    let tag ← c.resolve? h s
    let (n, c) := c.name a
    return ({ anchor := some n, tag := some tag }, c.skip.skip)
  | .anchor a :: _ =>
    let (n, c) := c.name a
    some ({ anchor := some n }, c.skip)
  | .tag h s :: _ => do return ({ tag := some (← c.resolve? h s) }, c.skip)
  | _ => some ({}, c)

def within (p : Properties) (read : Composer → Option (α × Composer)) (c : Composer) :
    Option (α × Composer) := do
  let (x, after) ← read { c with opened := p.anchor.toList ++ c.opened }
  return (x, { after with opened := c.opened })

def alias? (a : String) (c : Composer) : Option Node := do
  let n ← c.names.lookup a
  return .alias (if c.version = .yaml12 && c.opened.contains n then none else some n)

mutual

/-- A node; `block` where block collections may start, `loose` where the items of a sequence need no
deeper indentation. -/
def node? : Nat → Bool → Bool → Composer → Option (Node × Composer)
  | 0, _, _, _ => none
  | fuel + 1, block, loose, c =>
    match c.peek with
    | some (.alias a) => do return (← c.alias? a, c.skip)
    | _ => do
      let (p, c) ← c.properties?
      if loose && c.peek = some .blockEntry then
        let (items, c) ← c.within p (loose? fuel [])
        return (.list p items, c)
      else
        match c.peek with
        | some (.scalar text plain) => return (.scalar p text plain, c.skip)
        | some .flowSequence =>
          let (items, c) ← c.skip.within p (flowList? fuel true [])
          return (.list p items, c)
        | some .flowMapping =>
          let (members, c) ← c.skip.within p (flowMap? fuel true [])
          return (.map p members, c)
        | some .blockSequence =>
          if !block then none
          else
            let (items, c) ← c.skip.within p (blockList? fuel [])
            return (.list p items, c)
        | some .blockMapping =>
          if !block then none
          else
            let (members, c) ← c.skip.within p (blockMap? fuel [])
            return (.map p members, c)
        | _ => if p.anchor.isSome || p.tag.isSome then return (.scalar p "" true, c) else none

def nodeUnless? : Nat → List Token → Bool → Bool → Composer → Option (Node × Composer)
  | 0, _, _, _, _ => none
  | fuel + 1, stops, block, loose, c =>
    if c.nextIs stops then some (c.left, c) else node? fuel block loose c

def blockList? : Nat → List Node → Composer → Option (List Node × Composer)
  | 0, _, _ => none
  | fuel + 1, rev, c =>
    match c.peek with
    | some .blockEntry => do
      let (n, c) ← nodeUnless? fuel [.blockEntry, .blockEnd] true false c.skip
      blockList? fuel (n :: rev) c
    | some .blockEnd => some (rev.reverse, c.skip)
    | _ => none

/-- A sequence that is not indented more than the map it is in; it ends before the next key. -/
def loose? : Nat → List Node → Composer → Option (List Node × Composer)
  | 0, _, _ => none
  | fuel + 1, rev, c =>
    match c.peek with
    | some .blockEntry => do
      let (n, c) ← nodeUnless? fuel [.blockEntry, .key, .value, .blockEnd] true false c.skip
      loose? fuel (n :: rev) c
    | _ => some (rev.reverse, c)

def blockMap? : Nat → List (Node × Node) → Composer → Option (List (Node × Node) × Composer)
  | 0, _, _ => none
  | fuel + 1, rev, c =>
    match c.peek with
    | some .key => do
      let (k, c) ← nodeUnless? fuel [.key, .value, .blockEnd] true true c.skip
      let (v, c) ← blockValue? fuel c
      blockMap? fuel ((k, v) :: rev) c
    | some .value =>
      if c.version = .yaml11 then none
      else do
        let (v, after) ← blockValue? fuel c
        blockMap? fuel ((c.left, v) :: rev) after
    | some .blockEnd => some (rev.reverse, c.skip)
    | _ => none

def blockValue? : Nat → Composer → Option (Node × Composer)
  | 0, _ => none
  | fuel + 1, c =>
    if c.peek = some .value then nodeUnless? fuel [.key, .value, .blockEnd] true true c.skip
    else some (c.left, c)

def flowList? : Nat → Bool → List Node → Composer → Option (List Node × Composer)
  | 0, _, _, _ => none
  | fuel + 1, first, rev, c =>
    if c.peek = some .flowSequenceEnd then some (rev.reverse, c.skip)
    else do
      let c ← if first then some c else if c.peek = some .flowEntry then some c.skip else none
      match c.peek with
      | some .flowSequenceEnd => return (rev.reverse, c.skip)
      | some .key =>
        let c := c.skip
        let (k, c) ← if c.nextIs [.value, .flowEntry, .flowSequenceEnd] then some (c.left, c.skip)
          else node? fuel false false c
        let (v, c) ← flowValue? fuel .flowSequenceEnd c
        flowList? fuel false (.map {} [(k, v)] :: rev) c
      | _ =>
        let (n, c) ← node? fuel false false c
        flowList? fuel false (n :: rev) c

def flowMap? : Nat → Bool → List (Node × Node) → Composer → Option (List (Node × Node) × Composer)
  | 0, _, _, _ => none
  | fuel + 1, first, rev, c =>
    if c.peek = some .flowMappingEnd then some (rev.reverse, c.skip)
    else do
      let c ← if first then some c else if c.peek = some .flowEntry then some c.skip else none
      match c.peek with
      | some .flowMappingEnd => return (rev.reverse, c.skip)
      | some .key =>
        let (k, c) ← nodeUnless? fuel [.value, .flowEntry, .flowMappingEnd] false false c.skip
        let (v, c) ← flowValue? fuel .flowMappingEnd c
        flowMap? fuel false ((k, v) :: rev) c
      | _ =>
        if c.version = .yaml12 && c.peek = some .value then
          let (v, after) ← flowValue? fuel .flowMappingEnd c
          flowMap? fuel false ((c.left, v) :: rev) after
        else
          let (k, c) ← node? fuel false false c
          flowMap? fuel false ((k, c.left) :: rev) c

def flowValue? : Nat → Token → Composer → Option (Node × Composer)
  | 0, _, _ => none
  | fuel + 1, close, c =>
    if c.peek = some .value then nodeUnless? fuel [.flowEntry, close] false false c.skip
    else some (c.left, c)

end

/-- The directives before a document: at most one version, and in the earlier version a meaning for
a handle only once. In the later one only the last directive counts. -/
def directives? : Nat → Bool → Bool → Composer → Option (Bool × Composer)
  | 0, _, _, _ => none
  | fuel + 1, any, version, c =>
    match c.peek with
    | some .version =>
      if version then none
      else
        let handles := if c.version = .yaml11 then c.handles else []
        directives? fuel true true { c.skip with handles }
    | some (.tagHandle h base) =>
      if c.version = .yaml11 then
        if (c.handles.lookup h).isSome then none
        else directives? fuel true version { c.skip with handles := (h, base) :: c.handles }
      else directives? fuel true version { c.skip with handles := [(h, base)] }
    | _ => some (any, c)

def skipEnds (c : Composer) : Composer :=
  { c with tokens := c.tokens.dropWhile (· = .documentEnd) }

def isDirective : Token → Bool
  | .version | .tagHandle _ _ => true
  | _ => false

def content? (fuel : Nat) (c : Composer) : Option (Node × Composer) :=
  if c.tokens.isEmpty || c.nextIs [.documentStart, .documentEnd] || c.peek.any isDirective then
    some (c.left, c)
  else node? fuel true false c

def document? (c : Composer) : Option (Option Node) := do
  let c := if c.version = .yaml11 then c else c.skipEnds
  let fuel := 4 * c.tokens.length + 8
  let (directed, c) ← c.directives? fuel false false
  if !directed && c.tokens.isEmpty then some none
  else
    let (root, c) ←
      if c.peek = some .documentStart then c.skip.content? fuel
      else if directed then none
      else node? fuel true false c
    if c.skipEnds.tokens.isEmpty then some (some root) else none

end Composer

end StaticSite.Yaml
