import StaticSite.Page.Tree
import StaticSite.Proofs.Render.Layers

/-! Contracts of fragments and page trees: what their markup is and how they fail, where child content
keeps to the same. -/

namespace StaticSite

variable {Q : String → Prop} {E : RenderStop → Prop} {F : RenderError → Prop}

def Fragment.Meets (f : Fragment) (render : Renderer) (Q : String → Prop) (F : RenderError → Prop) :
    Prop :=
  ∀ σ (I : σ → Prop) props (q : Option (Producer σ)),
    (∀ p ∈ q, p.Meets (Run.SlotMeets Q F I) Q F) → (render σ f props q).Meets I Q F

namespace Registry

theorem renderLayer_meets {r : Registry} {render : Renderer} {f : Fragment} {t : Template}
    (ht : f.body = .template t)
    (hcomposes : ∀ σ props (q : Option (Producer σ)), (r.scope f props q).Composes Q E F)
    (hnodes : ∀ σ (I : σ → Prop) props (q : Option (Producer σ)),
      (∀ p ∈ q, p.Meets (Run.SlotMeets Q F I) Q F) → ∀ n ∈ Template.nodesParts t.nodes,
        Scope.NodeMeets render t (r.scope f props q) (Run.SlotMeets Q F I) Q E F n) :
    f.Meets (r.renderLayer render) Q F := by
  intro σ I props q hq
  have h := hcomposes σ props q
  have hbody := Scope.evalNodes_meets h [] t.nodes (hnodes σ I props q hq)
  unfold renderLayer
  rw [Scope.evalBody_template ht]
  exact (hbody.mapError fun _ he => h.inFragment he).nest

end Registry

namespace PageTree

variable {r : Registry}

mutual

theorem render_meets (hr : ∀ f ∈ r.fragments, f.Meets r.renderFragment Q F) (hnil : Q "")
    (happend : ∀ {a b}, Q a → Q b → Q (a ++ b)) (htext : ∀ s, Q (Html.escape s)) :
    (t : PageTree r) → ∀ (σ : Type) (I : σ → Prop), (t.render : Run σ _ _).Meets I Q F
  | .text s, σ, I => by
    rw [render]
    exact Run.meets_pure (htext s)
  | .fragment id props [], σ, I => by
    rw [render]
    exact hr _ (r.get_mem id) σ I props none nofun
  | .fragment id props (c :: cs), σ, I => by
    rw [render]
    refine hr _ (r.get_mem id) σ I props _ ?_
    rintro p ⟨⟩
    have first := render_meets hr hnil happend htext c σ I
    have rest := renderAll_meets hr hnil happend htext cs σ I
    exact (first.bind fun a ha => rest.bind fun b hb => Run.meets_pure (happend ha hb)).onSecond

theorem renderAll_meets (hr : ∀ f ∈ r.fragments, f.Meets r.renderFragment Q F) (hnil : Q "")
    (happend : ∀ {a b}, Q a → Q b → Q (a ++ b)) (htext : ∀ s, Q (Html.escape s)) :
    (ts : List (PageTree r)) → ∀ (σ : Type) (I : σ → Prop),
      (renderAll ts : Run σ _ _).Meets I Q F
  | [], σ, I => by
    rw [renderAll]
    exact Run.meets_pure hnil
  | t :: ts, σ, I => by
    rw [renderAll]
    have first := render_meets hr hnil happend htext t σ I
    have rest := renderAll_meets hr hnil happend htext ts σ I
    exact first.bind fun a ha => rest.bind fun b hb => Run.meets_pure (happend ha hb)

end

end PageTree

end StaticSite
