import StaticSite.Proofs.Registry.Entered
import StaticSite.Proofs.Render.Eval

namespace StaticSite

namespace Scope

theorem invoke_congr {s : Scope σ} {r : Registry} {render render' : Renderer}
    (hfind : ∀ d ∈ s.fragment.dependencies, s.registry.find? d = r.find? d)
    (hrender : ∀ d ∈ s.fragment.dependencies, ∀ f, s.registry.find? d = some f →
      ∀ τ, render τ f = render' τ f)
    (name : String) (props : Props) (q : Option (Producer (Slot × σ))) :
    s.invoke render name props q = (s.elsewhere r s.producer).invoke render' name props q := by
  by_cases hd : name ∈ s.fragment.dependencies
  · cases hf : s.registry.find? name with
    | none =>
      have hf' : r.find? name = none := hfind name hd ▸ hf
      rw [invoke_unknown hd hf, invoke_unknown (s := s.elsewhere r s.producer) hd hf']
    | some f =>
      have hf' : r.find? name = some f := hfind name hd ▸ hf
      rw [invoke_found hd hf, invoke_found (s := s.elsewhere r s.producer) hd hf',
        hrender name hd f hf]
  · rw [invoke_undeclared hd, invoke_undeclared (s := s.elsewhere r s.producer) hd]

end Scope

namespace Registry

theorem renderLayer_congr {r r' : Registry} {render render' : Renderer} {f : Fragment}
    (hfind : ∀ d ∈ f.dependencies, r.find? d = r'.find? d)
    (hrender : ∀ d ∈ f.dependencies, ∀ g, r.find? d = some g → ∀ τ, render τ g = render' τ g)
    (σ : Type) : r.renderLayer render σ f = r'.renderLayer render' σ f := by
  funext props producer
  have hbody := Scope.evalBody_congr (s := r.scope f props producer)
    (Scope.invoke_congr hfind hrender)
  simp only [renderLayer, hbody]
  rfl

theorem WellFormed.renderWithin_eq {r : Registry} (h : r.WellFormed) {deeper deeper' : Renderer}
    {n n' : Nat} {f : Fragment} (hf : f ∈ r.fragments) (hn : r.graph.rank f.name ≤ n)
    (hn' : r.graph.rank f.name ≤ n') (σ : Type) :
    r.renderWithin deeper n σ f = r.renderWithin deeper' n' σ f := by
  have hpos := rank_pos hf
  induction n generalizing n' f σ with
  | zero => omega
  | succ n ih =>
    obtain ⟨n', rfl⟩ : ∃ m, n' = m + 1 := ⟨n' - 1, by omega⟩
    refine renderLayer_congr (fun _ _ => rfl) (fun d hd g hg τ => ?_) σ
    -- A dependency reaches fewer names, so one layer less is enough for it on both sides.
    have hlt := h.rank_lt hf hd hg
    have hmem := mem_of_find? hg
    exact ih hmem (by omega) (by omega) τ (rank_pos hmem)

theorem WellFormed.renderFragment_eq {r : Registry} (h : r.WellFormed) {f : Fragment}
    (hf : f ∈ r.fragments) (σ : Type) :
    r.renderFragment σ f = r.renderLayer r.renderFragment σ f := by
  have hrank := r.rank_le_size f.name
  have hsucc : r.graph.rank f.name ≤ r.size + 1 := Nat.le_succ_of_le hrank
  exact h.renderWithin_eq hf hrank hsucc σ

end Registry

end StaticSite
