import StaticSite.Html.Attributes
import StaticSite.Html.Classes
import StaticSite.Registry.Basic
import StaticSite.Render.Lookup
import StaticSite.Render.Slot
import StaticSite.Value.Merge
import StaticSite.Value.Scalar

namespace StaticSite

/-- What a fragment sees while it is rendered; `σ` is the state of its caller. -/
structure Scope (σ : Type) where
  registry : Registry
  fragment : Fragment
  config : Props
  classes : Html.ClassList
  producer : Option (Producer σ)

abbrev Renderer := (σ : Type) → Fragment → Props → Option (Producer σ) → Run σ RenderError String

namespace Scope

def children (s : Scope σ) : Run (Slot × σ) RenderStop String :=
  (Slot.children s.producer).mapError fun e => .nested none e

def invoke (s : Scope σ) (render : Renderer) (name : String) (props : Props)
    (producer : Option (Producer (Slot × σ))) : Run (Slot × σ) RenderStop String :=
  if !s.fragment.dependsOn name then .fail (.raised none (.undeclared name))
  else
    match s.registry.find? name with
    | none => .fail (.raised none (.unknownFragment name))
    | some f => (render (Slot × σ) f props producer).mapError fun e => .nested none e

def entries? : Value → Option (List (Option String × Value))
  | .null => some []
  | .list items => some (items.map fun v => (none, v))
  | .map members => some (members.map fun m => (some m.1, m.2))
  | _ => none

def output (s : Scope σ) (here : Location) (rounds : List Round) (raw : Bool) :
    Output → Run (Slot × σ) RenderStop String
  | .reference x =>
    match x.lookup? rounds s.config with
    | none => pure ""
    | some v =>
      match v.text? with
      | none => .fail (.raised (some here) (.notText x.text v.kind))
      | some text => pure (if raw then text else Html.escape text)
  | .children => s.children.mapError (RenderStop.locate here)
  | .classes => pure (Html.escape s.classes.text)
  | .accessible => pure (Html.accessible s.config).text
  | .attributes => pure (Html.extra s.config).text

def rounds (s : Scope σ) (here : Location) (outer : List Round) (x : Reference) :
    Except RenderStop (List Round) :=
  match x.lookup? outer s.config with
  | none => .ok []
  | some v =>
    match entries? v with
    | some items => .ok (roundsOf items)
    | none => .error (.raised (some here) (.notIterable x.text v.kind))

def baseProps (s : Scope σ) (here : Location) (rounds : List Round) (c : Call) :
    Except RenderStop Props :=
  match c.base with
  | none => .ok []
  | some x =>
    match x.lookup? rounds s.config with
    | none | some .null => .ok []
    | some (.map members) => .ok members
    | some v => .error (.raised (some here) (.propsNotMap c.name x.text v.kind))

def addArgument (s : Scope σ) (rounds : List Round) (props : Props) :
    String × Argument → Props
  | (key, .literal v) => props.insert key v
  | (key, .reference x) =>
    match x.lookup? rounds s.config with
    | some v => props.insert key v
    | none => props

def callProps (s : Scope σ) (here : Location) (rounds : List Round) (c : Call) :
    Except RenderStop Props := do
  return c.args.foldl (s.addArgument rounds) (← s.baseProps here rounds c)

def holds (s : Scope σ) (rounds : List Round) (x : Reference) : Bool :=
  (x.lookup? rounds s.config).any Value.isTruthy

mutual

/-- The markup of a node; `t` is the template that it stands in. A block that is given to another
fragment is evaluated here, in the scope and the rounds around it, when that fragment asks. -/
def evalNode (render : Renderer) (t : Template) (s : Scope σ) (rounds : List Round) :
    Node → Run (Slot × σ) RenderStop String
  | .text text => pure text
  | .output what raw pos => s.output (t.locate pos) rounds raw what
  | .cond test negate yes no _ =>
    if s.holds rounds test != negate then evalNodes render t s rounds yes
    else evalNodes render t s rounds no
  | .each source body no pos => do
    let inner ← Run.ofExcept (s.rounds (t.locate pos) rounds source)
    if inner.isEmpty then evalNodes render t s rounds no
    else return String.join (← inner.mapM fun r => evalNodes render t s (r :: rounds) body)
  | .invoke call none pos => do
    let props ← Run.ofExcept (s.callProps (t.locate pos) rounds call)
    (s.invoke render call.name props none).mapError (RenderStop.locate (t.locate pos))
  | .invoke call (some block) pos => do
    let props ← Run.ofExcept (s.callProps (t.locate pos) rounds call)
    let html := evalNodes render t s rounds block
    let producer : Producer (Slot × σ) :=
      (html.mapError (RenderStop.inFragment s.fragment.name)).onSecond
    (s.invoke render call.name props (some producer)).mapError (RenderStop.locate (t.locate pos))

def evalNodes (render : Renderer) (t : Template) (s : Scope σ) (rounds : List Round) :
    List Node → Run (Slot × σ) RenderStop String
  | [] => pure ""
  | n :: ns => do
    let html ← evalNode render t s rounds n
    return html ++ (← evalNodes render t s rounds ns)

end

end Scope

end StaticSite
