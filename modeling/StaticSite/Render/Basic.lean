import StaticSite.Render.Native

/-! Rendering fragments. -/

namespace StaticSite

namespace Scope

def evalBody (render : Renderer) (s : Scope σ) : Run (Slot × σ) RenderStop String :=
  match s.fragment.body with
  | .template t => evalNodes render t s [] t.nodes
  | .native actions => s.actAll render actions

end Scope

namespace Registry

def scope (r : Registry) (f : Fragment) (props : Props) (producer : Option (Producer σ)) : Scope σ :=
  let config := f.effective props
  ⟨r, f, config, f.classList config, producer⟩

/-- Renders a fragment. What it depends on is rendered by `render`, also where a block of the
fragment asks for it, however deep the one lies that asks for the block. -/
def renderLayer (r : Registry) (render : Renderer) : Renderer := fun _ f props producer =>
  (((r.scope f props producer).evalBody render).mapError (RenderStop.inFragment f.name)).nest {}

def renderWithin (r : Registry) (deeper : Renderer) : Nat → Renderer
  | 0 => deeper
  | layers + 1 => r.renderLayer (r.renderWithin deeper layers)

def renderTooDeep : Renderer := fun _ f _ _ => .fail (.raised f.name none (.tooDeep f.name))

/-- Renders a fragment. Where dependencies have no cycle, there are no more layers of them than
fragments. -/
def renderFragment (r : Registry) : Renderer := r.renderWithin renderTooDeep r.size

def renderId (r : Registry) (id : r.Id) (props : Props) (producer : Option (Producer σ)) :
    Run σ RenderError String :=
  r.renderFragment σ (r.get id) props producer

def render (r : Registry) (name : String) (props : Props) (producer : Option (Producer σ)) :
    Run σ FragmentError String :=
  match r.id? name with
  | some id => (r.renderId id props producer).mapError .render
  | none => .fail (.unknown name none)

end Registry

end StaticSite
