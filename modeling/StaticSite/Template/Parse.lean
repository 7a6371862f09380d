import StaticSite.Template.Lexeme
import StaticSite.Template.Tag

namespace StaticSite.Template

inductive Opening
  | cond (test : Reference) (negate : Bool)
  | each (source : Reference)
  | invoke (call : Call)

def Opening.name : Opening → String
  | cond _ false => Keyword.whenTrue.text
  | cond _ true => Keyword.whenFalse.text
  | each _ => Keyword.each.text
  | invoke call => call.name

structure Block where
  opening : Opening
  pos : Position
  nodes : List Node := []
  no : Option (List Node) := none

namespace Block

def push (b : Block) (n : Node) : Block :=
  match b.no with
  | some no => { b with no := some (no ++ [n]) }
  | none => { b with nodes := b.nodes ++ [n] }

def node (b : Block) : Node :=
  let no := b.no.getD []
  match b.opening with
  | .cond test negate => .cond test negate b.nodes no b.pos
  | .each source => .each source b.nodes no b.pos
  | .invoke call => .invoke call (some b.nodes) b.pos

def turn (b : Block) : Except SyntaxFault Block :=
  match b.opening, b.no with
  | .invoke _, _ => .error .strayElse
  | _, some _ => .error .secondElse
  | _, none => .ok { b with no := some [] }

end Block

structure Builder where
  nodes : List Node := []
  blocks : List Block := []

namespace Builder

def push (b : Builder) (n : Node) : Builder :=
  match b.blocks with
  | [] => { b with nodes := b.nodes ++ [n] }
  | inner :: outer => { b with blocks := inner.push n :: outer }

def enter (b : Builder) (opening : Opening) (pos : Position) : Builder :=
  { b with blocks := { opening, pos } :: b.blocks }

def turn (b : Builder) : Except SyntaxFault Builder :=
  match b.blocks with
  | [] => .error .strayElse
  | inner :: outer => do return { b with blocks := (← inner.turn) :: outer }

def leave (b : Builder) (name : String) : Except SyntaxFault Builder :=
  match b.blocks with
  | [] => .error (.strayClose name)
  | inner :: outer =>
    if inner.opening.name = name then .ok ({ b with blocks := outer }.push inner.node)
    else .error (.crossedClose name inner.opening.name inner.pos)

def blockOpening (keyword : Keyword) (r : Reference) : Opening :=
  match keyword with
  | .whenTrue => .cond r false
  | .whenFalse => .cond r true
  | .each => .each r

def read (b : Builder) : Lexeme → Except SyntaxFault Builder
  | .text s => .ok (b.push (.text s))
  | .output content raw pos => do return b.push (.output (← output content) raw pos)
  | .openBlock keyword content pos => do
    return b.enter (blockOpening keyword (← blockReference content)) pos
  | .openCall content pos => do return b.enter (.invoke (← Template.call content)) pos
  | .call content pos => do return b.push (.invoke (← Template.call content) none pos)
  | .otherwise _ => b.turn
  | .close name _ => b.leave name

end Builder

def Lexeme.pos : Lexeme → Position
  | .text _ => ⟨1, 1⟩
  | .output _ _ pos | .openBlock _ _ pos | .openCall _ pos | .call _ pos | .otherwise pos
  | .close _ pos => pos

namespace Builder

def step (b : Builder) (l : Lexeme) : Except (Position × SyntaxFault) Builder :=
  (b.read l).mapError fun f => (l.pos, f)

def finish (b : Builder) : Except (Position × SyntaxFault) (List Node) :=
  match b.blocks with
  | [] => .ok b.nodes
  | inner :: _ => .error (inner.pos, .unclosedBlock inner.opening.name)

end Builder

def nodesOf (ls : List Lexeme) : Except (Position × SyntaxFault) (List Node) := do
  (← ls.foldlM Builder.step {}).finish

def parse (text source : String) (firstLine : Nat) : Except SyntaxError Template :=
  match lexemes firstLine text.toList >>= nodesOf with
  | .ok nodes => .ok ⟨source, nodes⟩
  | .error (pos, fault) => .error ⟨⟨source, pos⟩, fault⟩

end StaticSite.Template
