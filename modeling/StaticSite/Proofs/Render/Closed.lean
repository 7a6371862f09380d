import StaticSite.Proofs.Render.Contract

namespace StaticSite

def RenderStop.fault : RenderStop → RenderFault
  | raised _ x => x
  | nested _ e => e.fault

@[simp] theorem RenderStop.fault_inFragment (fragment : String) (s : RenderStop) :
    (s.inFragment fragment).fault = s.fault := by cases s <;> rfl

@[simp] theorem RenderStop.fault_locate (l : Location) (s : RenderStop) :
    (s.locate l).fault = s.fault := by
  rcases s with ⟨_ | _, _⟩ | ⟨_ | _, _⟩ <;> rfl

/-- A value is not of the kind that a tag asks for. -/
inductive RenderFault.OfValue : RenderFault → Prop
  | notIterable (reference kind : String) : OfValue (.notIterable reference kind)
  | notText (reference kind : String) : OfValue (.notText reference kind)
  | propsNotMap (name reference kind : String) : OfValue (.propsNotMap name reference kind)

def RenderError.OfValue (e : RenderError) : Prop := e.fault.OfValue

def RenderStop.OfValue (e : RenderStop) : Prop := e.fault.OfValue

def Fragment.FailsAtValues (f : Fragment) (render : Renderer) : Prop :=
  f.Meets render (fun _ => True) RenderError.OfValue

namespace Registry

def Closed (r : Registry) : Prop :=
  ∀ f ∈ r.fragments, ∃ t, f.Declared t ∧ ∀ d ∈ f.dependencies, ∃ g, r.find? d = some g

theorem mem_of_mem_entered {fs : List Fragment} : ∀ f ∈ (entered fs).fragments, f ∈ fs := by
  unfold entered
  refine List.foldlRecOn (motive := fun r : Registry => ∀ f ∈ r.fragments, f ∈ fs) fs _
    (by simp) fun r hr f hf g hg => ?_
  obtain hadmits | ⟨e, he⟩ := r.enter_cases f
  · rw [enter_of_admits hadmits] at hg
    obtain hg | rfl : g ∈ r.fragments ∨ g = f := by simpa [add] using hg
    · exact hr g hg
    · exact hf
  · rw [he] at hg
    exact hr g hg

theorem WellFormed.contains_of_validate {r : Registry} (h : r.WellFormed)
    (hv : r.validate = .ok ()) {f : Fragment} (hf : f ∈ r.fragments) {d : String}
    (hd : d ∈ f.dependencies) : ∃ g, r.find? d = some g := by
  have hnone : r.fragments.findSome? r.missing? = none := by
    unfold validate at hv
    split at hv
    · cases hv
    · assumption
  have hmissing : r.missing? f = none := List.findSome?_eq_none_iff.mp hnone f hf
  have hall : ∀ d ∈ f.dependencies, r.contains d = true := by simpa [missing?] using hmissing
  obtain ⟨g, hg, rfl⟩ := List.mem_map.mp (h.contains_iff.mp (hall d hd))
  exact ⟨g, h.find?_name hg⟩

theorem closed_entered {fs : List Fragment} (hfs : ∀ f ∈ fs, f.Parsed)
    (hv : (entered fs).validate = .ok ()) : (entered fs).Closed := by
  intro f hf
  obtain ⟨t, ht⟩ := (hfs f (mem_of_mem_entered f hf)).declared
  exact ⟨t, ht, fun d hd => (wellFormed_entered fs).contains_of_validate hv hf hd⟩

theorem nodeMeets_of_values {s : Scope σ} {I : σ → Prop} {render : Renderer} {t : Template}
    {n : Node} (hp : ∀ p ∈ s.producer,
      p.Meets (Run.SlotMeets (fun _ => True) RenderError.OfValue I) (fun _ => True)
        RenderError.OfValue)
    (hcall : ∀ call block pos, n = .invoke call block pos →
      call.name ∈ s.fragment.dependencies ∧
        ∃ f, s.registry.find? call.name = some f ∧ f.FailsAtValues render) :
    Scope.NodeMeets render t s (Run.SlotMeets (fun _ => True) RenderError.OfValue I)
      (fun _ => True) RenderStop.OfValue RenderError.OfValue n := by
  have hlocate : ∀ l (e : RenderStop), e.OfValue → (e.locate l).OfValue := by
    simp [RenderStop.OfValue]
  cases n with
  | text text => trivial
  | output what raw pos =>
    intro rounds
    cases what with
    | reference x =>
      rw [Scope.output]
      split
      · exact Run.meets_pure trivial
      · split
        · exact Run.meets_fail (RenderFault.OfValue.notText _ _)
        · exact Run.meets_pure trivial
    | children => exact (Scope.children_meets trivial (fun _ he => he) hp).mapError (hlocate _)
    | classes => exact Run.meets_pure trivial
    | accessible => exact Run.meets_pure trivial
    | attributes => exact Run.meets_pure trivial
  | cond test negate yes no pos => trivial
  | each source body no pos =>
    exact fun outer => Scope.rounds_ends fun v => RenderFault.OfValue.notIterable _ _
  | invoke call block pos =>
    obtain ⟨hd, f, hf, hrender⟩ := hcall call block pos rfl
    refine ⟨fun rounds => Scope.callProps_ends fun x v => RenderFault.OfValue.propsNotMap _ _ _, ?_⟩
    intro props q hq
    have hinvoke := Scope.invoke_meets (E := RenderStop.OfValue) hd hf (fun _ he => he)
      (hrender _ _ props q hq)
    exact hinvoke.mapError (hlocate _)

theorem WellFormed.renderFragment_failsAtValues {r : Registry} (h : r.WellFormed) (hr : r.Closed)
    {f : Fragment} (hf : f ∈ r.fragments) : f.FailsAtValues r.renderFragment := by
  refine h.induction ?_ hf
  intro f hf ih
  obtain ⟨t, ht, hfound⟩ := hr f hf
  have hcomposes : ∀ σ props (q : Option (Producer σ)),
      (r.scope f props q).Composes (fun _ => True) RenderStop.OfValue RenderError.OfValue :=
    fun _ _ _ => ⟨trivial, fun _ _ => trivial,
      fun he => by simpa [RenderStop.OfValue, RenderError.OfValue] using he⟩
  have hcall : ∀ call block pos, Node.invoke call block pos ∈ Template.nodesParts t.nodes →
      call.name ∈ f.dependencies ∧
        ∃ g, r.find? call.name = some g ∧ g.FailsAtValues r.renderFragment := by
    intro call block pos hn
    have hd := ht.calls_declared call block pos hn
    obtain ⟨g, hg⟩ := hfound _ hd
    exact ⟨hd, g, hg, ih _ hd g hg⟩
  have hlayer : f.FailsAtValues (r.renderLayer r.renderFragment) :=
    renderLayer_meets ht.body_eq hcomposes fun σ I props q hq n hn =>
      nodeMeets_of_values hq fun call block pos he => hcall call block pos (he ▸ hn)
  intro σ
  rw [h.renderFragment_eq hf]
  exact hlayer σ

end Registry

namespace PageTree

open Registry

/-- A page over fragment files that are all there comes to markup, or to an error at a value that is
not of the kind a tag asks for. No props and no choice of blocks lead to a fragment that is missing
or not declared. -/
theorem render_ok_or_ofValue (fs : List Fragment) (hfs : ∀ f ∈ fs, f.Parsed)
    (hv : (entered fs).validate = .ok ()) (t : PageTree (entered fs)) (s : σ) :
    (∃ html, (t.render s).result = .ok html) ∨
      ∃ e, (t.render s).result = .error e ∧ e.fault.OfValue := by
  have hclosed := closed_entered hfs hv
  have hmeets := render_meets
    (fun f hf => (wellFormed_entered fs).renderFragment_failsAtValues hclosed hf) trivial
    (fun _ _ => trivial) (fun _ => trivial) t σ (fun _ => True)
  obtain ⟨-, hend⟩ := hmeets s trivial
  cases hr : (t.render s).result with
  | ok html => exact .inl ⟨html, rfl⟩
  | error e =>
    rw [hr] at hend
    exact .inr ⟨e, rfl, hend⟩

theorem render_card_ok_or_ofValue :
    let fs := [Fragment.card, Fragment.badge]
    let t : PageTree (entered fs) := .fragment ⟨0, by decide⟩ [] [.text "x"]
    (∀ f ∈ fs, f.Parsed) ∧ (entered fs).validate = .ok () ∧
      ((∃ html, (t.render ()).result = .ok html) ∨
        ∃ e, (t.render ()).result = .error e ∧ e.fault.OfValue) := by
  intro fs t
  have hfs : ∀ f ∈ fs, f.Parsed := by simpa [fs] using ⟨Fragment.parsed_card, Fragment.parsed_badge⟩
  have hv : (entered fs).validate = .ok () := rfl
  exact ⟨hfs, hv, render_ok_or_ofValue fs hfs hv t ()⟩

end PageTree

end StaticSite
