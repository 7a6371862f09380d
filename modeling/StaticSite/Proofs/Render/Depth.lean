import StaticSite.Proofs.Render.Layers

namespace StaticSite

namespace Registry

def nesting (r : Registry) : Nat := (r.fragments.map Fragment.nesting).foldr max 0

/-- How deep `n` layers of fragments go if each has `m` calls inside each other's blocks: one block
asks for the next from within all that lies below the call. -/
def layersDepth (m : Nat) : Nat → Nat
  | 0 => 0
  | n + 1 => m * layersDepth m n + 1

def depthBound (r : Registry) : Nat := layersDepth r.nesting r.size

theorem nesting_le {r : Registry} {f : Fragment} (hf : f ∈ r.fragments) : f.nesting ≤ r.nesting := by
  unfold nesting
  generalize r.fragments = fs at hf ⊢
  induction fs with
  | nil => cases hf
  | cons g gs ih =>
    cases hf with
    | head => exact Nat.le_max_left _ _
    | tail _ hf => exact Nat.le_trans (ih hf) (Nat.le_max_right _ _)

end Registry

namespace Scope

variable {render : Renderer} {s : Scope σ} {K d : Nat}

def DeepensBy (K : Nat) (r : Registry) (render : Renderer) : Prop :=
  ∀ f ∈ r.fragments, ∀ σ props (q : Option (Producer σ)) d, (∀ p ∈ q, p.Within d) →
    (render σ f props q).Within (K + d)

theorem within_of_nesting_le {x : Run σ ε α} {m m' : Nat} (h : x.Within (m * K + d)) (hm : m ≤ m') :
    x.Within (m' * K + d) := h.mono (Nat.add_le_add_right (Nat.mul_le_mul_right K hm) d)

theorem invoke_within (hr : DeepensBy K s.registry render) {name : String} {props : Props}
    {q : Option (Producer (Slot × σ))} (hq : ∀ p ∈ q, p.Within d) :
    (s.invoke render name props q).Within (K + d) := by
  by_cases hd : name ∈ s.fragment.dependencies
  · cases hf : s.registry.find? name with
    | none =>
      rw [invoke_unknown hd hf]
      exact Run.within_fail _
    | some f =>
      rw [invoke_found hd hf]
      exact (hr f (Registry.mem_of_find? hf) _ props q d hq).mapError _
  · rw [invoke_undeclared hd]
    exact Run.within_fail _

theorem output_within (hp : ∀ p ∈ s.producer, p.Within d) (here : Location) (rounds : List Round)
    (raw : Bool) (what : Output) : (s.output here rounds raw what).Within d := by
  cases what with
  | reference x =>
    rw [output]
    split
    · exact Run.within_pure _
    · split
      · exact Run.within_fail _
      · exact Run.within_pure _
  | children => exact ((Run.within_children hp).mapError _).mapError _
  | classes => exact Run.within_pure _
  | accessible => exact Run.within_pure _
  | attributes => exact Run.within_pure _

mutual

theorem evalNode_within (hr : DeepensBy K s.registry render) (hp : ∀ p ∈ s.producer, p.Within d)
    (t : Template) : (rounds : List Round) → (n : Node) →
      (evalNode render t s rounds n).Within (Template.nodeNesting n * K + d)
  | _, .text _ => by
    rw [evalNode]
    exact Run.within_pure _
  | rounds, .output what raw pos => by
    rw [evalNode]
    exact (output_within hp _ rounds raw what).mono (Nat.le_add_left d _)
  | rounds, .cond test negate yes no _ => by
    have hyes := evalNodes_within hr hp t rounds yes
    have hno := evalNodes_within hr hp t rounds no
    rw [evalNode, Template.nodeNesting]
    split
    · exact within_of_nesting_le hyes (Nat.le_max_left _ _)
    · exact within_of_nesting_le hno (Nat.le_max_right _ _)
  | rounds, .each source body no pos => by
    have hbody := fun round => evalNodes_within hr hp t (round :: rounds) body
    have hno := evalNodes_within hr hp t rounds no
    rw [evalNode, Template.nodeNesting]
    refine (Run.within_ofExcept _).bind fun inner => ?_
    split
    · exact within_of_nesting_le hno (Nat.le_max_right _ _)
    · have hrounds := (Run.Within.mapM hbody inner).bind fun pieces =>
        Run.within_pure (String.join pieces)
      exact within_of_nesting_le hrounds (Nat.le_max_left _ _)
  | rounds, .invoke call none pos => by
    rw [evalNode, Template.nodeNesting, Nat.one_mul]
    exact (Run.within_ofExcept _).bind fun props => (invoke_within hr (by rintro p ⟨⟩)).mapError _
  | rounds, .invoke call (some block) pos => by
    -- The block is rendered where the call asks for it, so the two depths add up.
    have hblock := evalNodes_within hr hp t rounds block
    rw [evalNode, Template.nodeNesting]
    refine (Run.within_ofExcept _).bind fun props => Run.Within.mapError ?_ _
    refine (invoke_within (d := Template.nodesNesting block * K + d) hr ?_).mono ?_
    · rintro p ⟨⟩
      exact (hblock.mapError _).onSecond
    · rw [Nat.add_mul]
      omega

theorem evalNodes_within (hr : DeepensBy K s.registry render) (hp : ∀ p ∈ s.producer, p.Within d)
    (t : Template) : (rounds : List Round) → (ns : List Node) →
      (evalNodes render t s rounds ns).Within (Template.nodesNesting ns * K + d)
  | _, [] => by
    rw [evalNodes]
    exact Run.within_pure _
  | rounds, n :: ns => by
    have first := evalNode_within hr hp t rounds n
    have rest := evalNodes_within hr hp t rounds ns
    rw [evalNodes, Template.nodesNesting]
    exact (within_of_nesting_le first (Nat.le_max_left _ _)).bind fun a =>
      (within_of_nesting_le rest (Nat.le_max_right _ _)).bind fun b => Run.within_pure (a ++ b)

end

theorem act_within (hr : DeepensBy K s.registry render) (hp : ∀ p ∈ s.producer, p.Within d)
    (a : Action) : (s.act render a).Within (K + d) := by
  have hchildren := (Run.within_children hp).mono (Nat.le_add_left d K)
  cases a with
  | children => exact hchildren.mapError _
  | tryChildren => exact hchildren.attempt.bind fun _ => Run.within_pure _
  | invoke name props children =>
    refine invoke_within hr fun p hmem => ?_
    obtain ⟨x, -, rfl⟩ := Option.map_eq_some_iff.mp hmem
    exact Run.within_ofExcept _
  | fail message => exact Run.within_fail _
  | _ => exact Run.within_pure _

theorem evalBody_within (hr : DeepensBy K s.registry render) (hp : ∀ p ∈ s.producer, p.Within d) :
    (s.evalBody render).Within (s.fragment.nesting * K + d) := by
  cases hb : s.fragment.body with
  | template t =>
    rw [evalBody_template hb, Fragment.nesting, hb]
    exact evalNodes_within hr hp t [] t.nodes
  | native actions =>
    rw [evalBody_native hb, Fragment.nesting, hb, Nat.one_mul]
    exact (Run.Within.mapM (act_within hr hp) actions).bind fun _ => Run.within_pure _

end Scope

namespace Registry

theorem renderWithin_deepensBy (r : Registry) (n : Nat) :
    Scope.DeepensBy (layersDepth r.nesting n) r (r.renderWithin renderTooDeep n) := by
  induction n with
  | zero => exact fun _ _ _ _ _ _ _ => Run.within_fail _
  | succ n ih =>
    intro f hf σ props q d hq
    have hbody := Scope.evalBody_within (s := r.scope f props q) ih hq
    refine ((hbody.mapError (RenderStop.inFragment f.name)).nest {}).mono ?_
    change f.nesting * layersDepth r.nesting n + d + 1 ≤ r.nesting * layersDepth r.nesting n + 1 + d
    have := Nat.mul_le_mul_right (layersDepth r.nesting n) (nesting_le hf)
    omega

/-- Rendering a fragment ends. Below as many layers of dependencies as there are fragments nothing
is left to be rendered, so that it does not matter what would be done there. Fragments never lie
deeper inside each other than the registry and the child content allow, whatever the props. -/
theorem renderId_ends (fs : List Fragment) (id : (entered fs).Id) (props : Props)
    (producer : Option (Producer σ)) :
    (∀ deeper n, (entered fs).size ≤ n →
      (entered fs).renderWithin deeper n σ ((entered fs).get id) props producer =
        (entered fs).renderId id props producer) ∧
    (entered fs).renderId id props producer =
      (entered fs).renderLayer (entered fs).renderFragment σ ((entered fs).get id) props producer ∧
    ∀ d, (∀ p ∈ producer, p.Within d) →
      ((entered fs).renderId id props producer).Within ((entered fs).depthBound + d) := by
  have hwf := wellFormed_entered fs
  have hmem := (entered fs).get_mem id
  have hrank := (entered fs).rank_le_size ((entered fs).get id).name
  refine ⟨fun deeper n hn => ?_, ?_, fun d hd => ?_⟩
  · unfold renderId renderFragment
    rw [hwf.renderWithin_eq hmem (hrank.trans hn) hrank σ]
  · unfold renderId
    rw [hwf.renderFragment_eq hmem σ]
  · exact (entered fs).renderWithin_deepensBy (entered fs).size _ hmem σ props producer d hd

theorem renderId_card_within :
    let r := entered [.badge, .card]
    let id : r.Id := ⟨1, by decide⟩
    let text : Producer Unit := Run.ofExcept (.ok "x")
    r.size ≤ 2 ∧ text.Within 0 ∧
      r.renderWithin renderTooDeep 2 Unit (r.get id) [] (some text) =
        r.renderId id [] (some text) ∧
      (r.renderId id [] (some text)).Within 2 := by
  intro r id text
  have hsize : r.size ≤ 2 := by decide
  have hbound : r.depthBound = 2 := by decide
  have htext : text.Within 0 := Run.within_ofExcept _
  obtain ⟨hlayers, -, hdepth⟩ := renderId_ends [.badge, .card] id [] (some text)
  refine ⟨hsize, htext, hlayers renderTooDeep 2 hsize, ?_⟩
  have hwithin := hdepth 0 (by rintro p ⟨⟩; exact htext)
  rwa [hbound] at hwithin

end Registry

end StaticSite
