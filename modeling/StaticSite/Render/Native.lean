import StaticSite.Json.Text
import StaticSite.Render.Eval

namespace StaticSite

namespace Supply

def result : Supply → Except RenderError String
  | html s => .ok s
  | failure message fragment => .error (.raised fragment none (.reported message))

def producer (x : Supply) : Producer σ := Run.ofExcept x.result

def counted (x : Supply) : Producer Nat := fun (slot, n) => ⟨x.result, (slot, n + 1), 0⟩

end Supply

namespace Scope

def attemptText : Except RenderError String → String
  | .ok html => "ok(" ++ html ++ ")"
  | .error e => "err(" ++ e.message ++ ")"

def act (render : Renderer) (s : Scope σ) : Action → Run (Slot × σ) RenderStop String
  | .text text => pure text
  | .name => pure s.fragment.name
  | .tier => pure s.fragment.tier.text
  | .prop key => pure (((s.config.get? key).bind Value.text?).getD "")
  | .config => pure (Json.text (.map s.config))
  | .classes => pure s.classes.text
  | .accessible => pure (Html.accessible s.config).text
  | .attributes => pure (Html.extra s.config).text
  | .hasChildren => pure (Value.boolText s.producer.isSome)
  | .children => s.children
  | .tryChildren => do return attemptText (← (Slot.children s.producer).attempt)
  | .invoke name props children => s.invoke render name props (children.map Supply.producer)
  | .fail message => .fail (.raised none (.reported message))

def actAll (render : Renderer) (s : Scope σ) (actions : List Action) :
    Run (Slot × σ) RenderStop String := do
  return String.join (← actions.mapM (s.act render))

end Scope

end StaticSite
