import StaticSite.Text.Space
import StaticSite.Text.Ticked
import StaticSite.Value.Basic

namespace StaticSite

/-- A fragment with props and children, or a text; whether it is one of the two is checked later. -/
structure PageNode where
  fragment : Option String := none
  text : Option String := none
  props : Props := []
  children : List PageNode := []

structure PageDecl where
  title : String
  lang : Option String := none
  description : Option String := none
  root : PageNode

inductive NodeFault
  | both
  | neither
  | emptyName
  | textWithMore
  deriving DecidableEq

inductive PageFault
  | noTitle
  | rootNotFragment
  | node (address : List Nat) (fault : NodeFault)
  deriving DecidableEq

def addressText (address : List Nat) : String :=
  "root" ++ String.join (address.map fun i => ".children[" ++ Nat.repr i ++ "]")

def NodeFault.message : NodeFault → String
  | both =>
    "a node sets either " ++ Text.ticked "fragment" ++ " or " ++ Text.ticked "text" ++ ", not both"
  | neither => "node needs a " ++ Text.ticked "fragment" ++ " or " ++ Text.ticked "text"
  | emptyName => "empty fragment name"
  | textWithMore => "text nodes take no props or children"

def PageFault.message : PageFault → String
  | noTitle => "title is required"
  | rootNotFragment => "root: the root node must invoke a fragment"
  | node address fault => addressText address ++ ": " ++ fault.message

inductive NodeKind
  | fragment (name : String)
  | text (s : String)
  deriving DecidableEq

namespace PageNode

def kind (n : PageNode) : NodeKind :=
  match n.fragment with
  | some name => .fragment name
  | none => .text (n.text.getD "")

def ownFault? (n : PageNode) : Option NodeFault :=
  match n.fragment, n.text with
  | some _, some _ => some .both
  | none, none => some .neither
  | some name, none => if Text.isBlank name then some .emptyName else none
  | none, some _ => if n.props.isEmpty && n.children.isEmpty then none else some .textWithMore

mutual

def firstFault? (address : List Nat) : PageNode → Option (List Nat × NodeFault)
  | ⟨fragment, text, props, children⟩ =>
    match ownFault? ⟨fragment, text, props, children⟩ with
    | some f => some (address, f)
    | none => firstFaultIn? address 0 children

def firstFaultIn? (address : List Nat) (i : Nat) : List PageNode → Option (List Nat × NodeFault)
  | [] => none
  | n :: ns =>
    match firstFault? (address ++ [i]) n with
    | some r => some r
    | none => firstFaultIn? address (i + 1) ns

end

end PageNode

def PageDecl.check (d : PageDecl) : Except PageFault Unit :=
  if Text.isBlank d.title then .error .noTitle
  else if d.root.fragment.isNone then .error .rootNotFragment
  else match d.root.firstFault? [] with
    | some (address, f) => .error (.node address f)
    | none => .ok ()

end StaticSite
