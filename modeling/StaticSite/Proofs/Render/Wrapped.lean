import StaticSite.Proofs.Render.Alike
import StaticSite.Proofs.Render.Layers
import StaticSite.Template.Parse

namespace StaticSite

namespace Registry

theorem WellFormed.renderFragment_children {r : Registry} (h : r.WellFormed) {w : Fragment}
    (hw : w ∈ r.fragments) {source : String} {raw : Bool} {pos : Position}
    (hbody : w.body = .template ⟨source, [.output .children raw pos]⟩) (props : Props)
    (p : Producer σ) (x : σ) :
    let y := p ({ busy := true }, x)
    r.renderFragment σ w props (some p) x =
      ⟨y.result.mapError (.nested w.name (some ⟨source, pos⟩)), y.state.2, y.depth + 1⟩ := by
  intro y
  have hbody := Scope.evalBody_template (s := r.scope w props (some p)) hbody r.renderFragment
  rw [h.renderFragment_eq hw, renderLayer, hbody, Scope.evalNodes_singleton, Scope.evalNode,
    Scope.output]
  have hresult (e : Except RenderError String) :
      (((e.mapError (RenderStop.nested none)).mapError (RenderStop.locate ⟨source, pos⟩)).mapError
        (RenderStop.inFragment w.name)) = e.mapError (.nested w.name (some ⟨source, pos⟩)) := by
    cases e <;> rfl
  rw [← hresult]
  rfl

end Registry

namespace Scope

theorem evalNode_children {s : Scope σ} (h : s.registry.WellFormed) {name : String} {w : Fragment}
    (hw : s.registry.find? name = some w) {source : String} {raw : Bool} {inner : Position}
    (hbody : w.body = .template ⟨source, [.output .children raw inner]⟩)
    (hd : name ∈ s.fragment.dependencies) (t : Template) (rounds : List Round) (block : List Node)
    (pos : Position) (x : Slot × σ) :
    let inPlace := evalNodes s.registry.renderFragment t s rounds block x
    evalNode s.registry.renderFragment t s rounds (.invoke ⟨name, none, []⟩ (some block) pos) x =
      ⟨inPlace.result.mapError fun e =>
          .nested (some (t.locate pos)) (.nested w.name (some ⟨source, inner⟩)
            (e.inFragment s.fragment.name)),
        inPlace.state, inPlace.depth + 1⟩ := by
  intro inPlace
  have hprops : s.callProps (t.locate pos) rounds ⟨name, none, []⟩ = .ok [] := rfl
  have hresult (y : Except RenderStop String) :
      (((y.mapError (RenderStop.inFragment s.fragment.name)).mapError
          (.nested w.name (some ⟨source, inner⟩))).mapError (RenderStop.nested none)).mapError
            (RenderStop.locate (t.locate pos)) =
        y.mapError fun e => .nested (some (t.locate pos)) (.nested w.name (some ⟨source, inner⟩)
          (e.inFragment s.fragment.name)) := by
    cases y <;> rfl
  rw [evalNode, hprops, Run.ofExcept_bind, invoke_found hd hw, ← hresult]
  simp only [Run.mapError]
  rw [h.renderFragment_children (Registry.mem_of_find? hw) hbody]
  rfl

/-- A block that is given to a fragment which is nothing but its child content comes to what it comes
to in place, in the same configuration, rounds and slot. It fails where the block fails, and for the
same reason. -/
theorem evalNode_wrapped (fs : List Fragment) {s : Scope σ} (hs : s.registry = Registry.entered fs)
    {name : String} {w : Fragment} (hw : (Registry.entered fs).find? name = some w)
    {source : String} {line : Nat} {t : Template}
    (ht : Template.parse "\x7b\x7b children \x7d\x7d" source line = .ok t)
    (hbody : w.body = .template t) (hd : name ∈ s.fragment.dependencies) (t' : Template)
    (rounds : List Round) (block : List Node) (pos : Position) :
    let render := (Registry.entered fs).renderFragment
    let wrapped := Node.invoke ⟨name, none, []⟩ (some block) pos
    let innermost := fun e : RenderStop => (e.inFragment s.fragment.name).innermost
    (∀ x, (evalNode render t' s rounds wrapped x).state =
          (evalNodes render t' s rounds block x).state ∧
        (evalNode render t' s rounds wrapped x).result.mapError innermost =
          (evalNodes render t' s rounds block x).result.mapError innermost) ∧
      ∀ before after, (evalNodes render t' s rounds (before ++ wrapped :: after)).Alike innermost
        (evalNodes render t' s rounds (before ++ (block ++ after))) := by
  intro render wrapped innermost
  have hwf : s.registry.WellFormed := hs ▸ Registry.wellFormed_entered fs
  have hchildren : t = ⟨source, [.output .children false ⟨line, 1⟩]⟩ := (Except.ok.inj ht).symm
  have heq := evalNode_children hwf (hs ▸ hw) (hchildren ▸ hbody) hd t' rounds block pos
  rw [hs] at heq
  have hlocal (x : Slot × σ) : (evalNode render t' s rounds wrapped x).state =
        (evalNodes render t' s rounds block x).state ∧
      (evalNode render t' s rounds wrapped x).result.mapError innermost =
        (evalNodes render t' s rounds block x).result.mapError innermost := by
    rw [heq x]
    refine ⟨rfl, ?_⟩
    cases (evalNodes render t' s rounds block x).result <;> rfl
  refine ⟨hlocal, fun before after => ?_⟩
  have hhere : (evalNode render t' s rounds wrapped).Alike innermost
      (evalNodes render t' s rounds block) := fun x => ⟨(hlocal x).2, fun _ _ => (hlocal x).1⟩
  rw [evalNodes_append, evalNodes_append before, evalNodes, evalNodes_append block]
  exact (Run.Alike.refl innermost _).bind fun _ =>
    (hhere.bind fun _ => .refl innermost _).bind fun _ => .refl innermost _

end Scope

def Fragment.frame : Fragment where
  name := "frame"
  body := .template ⟨"frame", [.output .children false ⟨1, 1⟩]⟩

def Fragment.framed : Fragment where
  name := "framed"
  dependencies := ["frame"]
  body := .template ⟨"framed", []⟩

namespace Scope

theorem evalNode_wrapped_frame :
    let fs := [Fragment.frame, Fragment.framed]
    let p : Producer Unit := (Supply.html "c").producer
    let s := (Registry.entered fs).scope .framed [("x", .string "a")] (some p)
    let rounds : List Round := [⟨.string "i", 0, none, 1⟩]
    let block : List Node := [.output (.reference ⟨"this", .this, []⟩) false ⟨1, 12⟩,
      .output (.reference ⟨"x", .scope, ["x"]⟩) false ⟨1, 20⟩, .output .children false ⟨1, 25⟩]
    let render := (Registry.entered fs).renderFragment
    let wrapped := Node.invoke ⟨"frame", none, []⟩ (some block) ⟨1, 1⟩
    let innermost := fun e : RenderStop => (e.inFragment "framed").innermost
    (evalNodes render ⟨"framed", []⟩ s rounds block ({}, ())).result = .ok "iac" ∧
      (evalNode render ⟨"framed", []⟩ s rounds wrapped ({}, ())).result.mapError innermost =
        .ok "iac" := by
  intro fs p s rounds block render wrapped innermost
  have hplace : (evalNodes render ⟨"framed", []⟩ s rounds block ({}, ())).result = .ok "iac" := rfl
  have hparse : Template.parse "\x7b\x7b children \x7d\x7d" "frame" 1 =
      .ok ⟨"frame", [.output .children false ⟨1, 1⟩]⟩ := rfl
  have hfound : (Registry.entered fs).find? "frame" = some .frame := rfl
  have hd : "frame" ∈ s.fragment.dependencies := by decide
  obtain ⟨hlocal, -⟩ :=
    evalNode_wrapped fs (s := s) rfl hfound hparse rfl hd ⟨"framed", []⟩ rounds block ⟨1, 1⟩
  exact ⟨hplace, (hlocal ({}, ())).2.trans (congrArg (Except.mapError innermost) hplace)⟩

end Scope

end StaticSite
