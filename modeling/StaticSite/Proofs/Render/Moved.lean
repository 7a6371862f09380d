import StaticSite.Proofs.Render.Alike
import StaticSite.Proofs.Render.Closed
import StaticSite.Proofs.Template.Unplaced

/-! Templates at other places: what they come to is the same, but for the places in errors. -/

namespace StaticSite

theorem Run.Alike.locate {x y : Run σ RenderStop α} (h : x.Alike RenderStop.fault y)
    (l l' : Location) :
    (x.mapError (RenderStop.locate l)).Alike RenderStop.fault (y.mapError (RenderStop.locate l')) :=
  h.mapError fun e e' he => by rw [RenderStop.fault_locate, RenderStop.fault_locate, he]

theorem Run.Alike.inFragment {x y : Run σ RenderStop α} (h : x.Alike RenderStop.fault y)
    (name : String) :
    (x.mapError (RenderStop.inFragment name)).Alike RenderError.fault
      (y.mapError (RenderStop.inFragment name)) :=
  h.mapError fun e e' he => by
    rw [RenderStop.fault_inFragment, RenderStop.fault_inFragment, he]

theorem Run.Alike.nested {x y : Run σ RenderError α} (h : x.Alike RenderError.fault y) :
    (x.mapError (RenderStop.nested none)).Alike RenderStop.fault
      (y.mapError (RenderStop.nested none)) := h.mapError fun _ _ he => he

/-- Whatever fails inside the fragment makes it fail. Templates are like that; a fragment that is none
may look at how its child content failed, and go on. -/
def Fragment.PassesFailures (f : Fragment) : Prop :=
  ∀ actions, f.body = .native actions → Action.tryChildren ∉ actions

def Registry.Carries (r : Registry) (render : Renderer) : Prop :=
  ∀ f ∈ r.fragments, ∀ σ props (q q' : Option (Producer σ)),
    Option.Rel (Run.Alike RenderError.fault) q q' →
      (render σ f props q).Alike RenderError.fault (render σ f props q')

namespace Scope

def InvokeAlike (s s' : Scope σ) (render render' : Renderer) : Prop :=
  ∀ name props q q', Option.Rel (Run.Alike RenderError.fault) q q' →
    (s.invoke render name props q).Alike RenderStop.fault (s'.invoke render' name props q')

section Moved

variable {render render' : Renderer} {t t' : Template} {s : Scope σ} {r : Registry}
  {producer : Option (Producer σ)}

theorem children_alike (hp : Option.Rel (Run.Alike RenderError.fault) s.producer producer) :
    s.children.Alike RenderStop.fault (s.elsewhere r producer).children := by
  refine Run.Alike.nested ?_
  change (Slot.children s.producer).Alike RenderError.fault (Slot.children producer)
  generalize s.producer = q at hp ⊢
  cases hp with
  | some hp => exact hp.children
  | none => exact .refl _ _

theorem output_alike (hp : Option.Rel (Run.Alike RenderError.fault) s.producer producer)
    (here here' : Location) (rounds : List Round) (raw : Bool) (what : Output) :
    (s.output here rounds raw what).Alike RenderStop.fault
      ((s.elsewhere r producer).output here' rounds raw what) := by
  cases what with
  | reference x =>
    change Run.Alike _ _ (s.output here' rounds raw (.reference x))
    simp only [output]
    split
    · exact .refl _ _
    · split
      · exact Run.alike_fail rfl
      · exact .refl _ _
  | children => exact (children_alike hp).locate here here'
  | classes | accessible | attributes => exact .refl _ _

theorem rounds_mapError (s : Scope σ) (here here' : Location) (outer : List Round) (x : Reference) :
    (s.rounds here outer x).mapError RenderStop.fault =
      (s.rounds here' outer x).mapError RenderStop.fault := by
  unfold rounds
  split
  · rfl
  · split <;> rfl

theorem callProps_mapError (s : Scope σ) (here here' : Location) (rounds : List Round) (c : Call) :
    (s.callProps here rounds c).mapError RenderStop.fault =
      (s.callProps here' rounds c).mapError RenderStop.fault := by
  unfold callProps baseProps
  split
  · rfl
  · split <;> rfl

mutual

theorem evalNode_moved (hp : Option.Rel (Run.Alike RenderError.fault) s.producer producer)
    (hi : InvokeAlike s (s.elsewhere r producer) render render') :
    (rounds : List Round) → (n : Node) → {n' : Node} →
      Template.nodeUnplaced n' = Template.nodeUnplaced n →
        (evalNode render t s rounds n).Alike RenderStop.fault
          (evalNode render' t' (s.elsewhere r producer) rounds n')
  | _, .text text, n', h => by
    obtain rfl : n' = .text text := Template.of_nodeUnplaced_eq h
    rw [evalNode, evalNode]
    exact .refl _ _
  | rounds, .output what raw pos, n', h => by
    obtain ⟨pos', rfl⟩ := Template.of_nodeUnplaced_eq h
    rw [evalNode, evalNode]
    exact output_alike hp _ _ rounds raw what
  | rounds, .cond test negate yes no pos, n', h => by
    obtain ⟨yes', no', pos', rfl, hyes, hno⟩ := Template.of_nodeUnplaced_eq h
    rw [evalNode, evalNode]
    change Run.Alike _ _ (if s.holds rounds test != negate then _ else _)
    split
    · exact evalNodes_moved hp hi rounds yes hyes
    · exact evalNodes_moved hp hi rounds no hno
  | rounds, .each source body no pos, n', h => by
    obtain ⟨body', no', pos', rfl, hbody, hno⟩ := Template.of_nodeUnplaced_eq h
    rw [evalNode, evalNode]
    refine (Run.alike_ofExcept (rounds_mapError s _ _ rounds source)).bind fun inner => ?_
    split
    · exact evalNodes_moved hp hi rounds no hno
    · refine Run.Alike.bind (.mapM fun round _ => ?_) fun _ => .refl _ _
      exact evalNodes_moved hp hi (round :: rounds) body hbody
  | rounds, .invoke call none pos, n', h => by
    obtain ⟨pos', rfl⟩ := Template.of_nodeUnplaced_eq h
    rw [evalNode, evalNode]
    refine (Run.alike_ofExcept (callProps_mapError s _ _ rounds call)).bind fun props => ?_
    exact (hi call.name props none none .none).locate _ _
  | rounds, .invoke call (some block) pos, n', h => by
    obtain ⟨block', pos', rfl, hblock⟩ := Template.of_nodeUnplaced_eq h
    rw [evalNode, evalNode]
    refine (Run.alike_ofExcept (callProps_mapError s _ _ rounds call)).bind fun props => ?_
    refine (hi call.name props _ _ (.some ?_)).locate _ _
    exact ((evalNodes_moved hp hi rounds block hblock).inFragment s.fragment.name).onSecond

theorem evalNodes_moved (hp : Option.Rel (Run.Alike RenderError.fault) s.producer producer)
    (hi : InvokeAlike s (s.elsewhere r producer) render render') :
    (rounds : List Round) → (ns : List Node) → {ns' : List Node} →
      Template.nodesUnplaced ns' = Template.nodesUnplaced ns →
        (evalNodes render t s rounds ns).Alike RenderStop.fault
          (evalNodes render' t' (s.elsewhere r producer) rounds ns')
  | _, [], ns', h => by
    obtain rfl : ns' = [] := by
      cases ns' with
      | nil => rfl
      | cons m ms => cases h
    rw [evalNodes, evalNodes]
    exact .refl _ _
  | rounds, n :: ns, ns', h => by
    obtain ⟨m, ms, rfl, hm, hms⟩ := Template.exists_of_nodesUnplaced_cons h
    rw [evalNodes, evalNodes]
    exact (evalNode_moved hp hi rounds n hm).bind fun _ =>
      (evalNodes_moved hp hi rounds ns hms).bind fun _ => .refl _ _

end

theorem act_alike (hp : Option.Rel (Run.Alike RenderError.fault) s.producer producer)
    (hi : InvokeAlike s (s.elsewhere r producer) render render') {a : Action}
    (ha : a ≠ .tryChildren) :
    (s.act render a).Alike RenderStop.fault ((s.elsewhere r producer).act render' a) := by
  cases a with
  | children => exact children_alike hp
  | invoke name props children =>
    refine hi name props _ _ ?_
    cases children with
    | none => exact .none
    | some x => exact .some (.refl _ _)
  | tryChildren => exact absurd rfl ha
  | hasChildren =>
    have hsome : s.producer.isSome = producer.isSome := by
      generalize s.producer = q at hp
      cases hp <;> rfl
    change Run.Alike _ _ (pure (Value.boolText producer.isSome))
    rw [act, hsome]
    exact .refl _ _
  | _ => exact .refl _ _

theorem evalBody_alike (hp : Option.Rel (Run.Alike RenderError.fault) s.producer producer)
    (hi : InvokeAlike s (s.elsewhere r producer) render render') (hs : s.fragment.PassesFailures) :
    (s.evalBody render).Alike RenderStop.fault ((s.elsewhere r producer).evalBody render') := by
  cases hb : s.fragment.body with
  | template t =>
    rw [evalBody_template hb, evalBody_template (s := s.elsewhere r producer) hb]
    exact evalNodes_moved hp hi [] t.nodes rfl
  | native actions =>
    rw [evalBody_native hb, evalBody_native (s := s.elsewhere r producer) hb]
    have hacts : (actions.mapM (s.act render)).Alike RenderStop.fault
        (actions.mapM ((s.elsewhere r producer).act render')) :=
      .mapM fun a ha => act_alike hp hi fun he => hs actions hb (he ▸ ha)
    exact hacts.bind fun _ => .refl _ _

theorem invoke_alike (h : s.registry.Carries render) :
    InvokeAlike s (s.elsewhere s.registry producer) render render := by
  intro name props q q' hq
  by_cases hd : name ∈ s.fragment.dependencies
  · cases hf : s.registry.find? name with
    | none =>
      rw [invoke_unknown hd hf, invoke_unknown (s := s.elsewhere s.registry producer) hd hf]
      exact .refl _ _
    | some f =>
      rw [invoke_found hd hf, invoke_found (s := s.elsewhere s.registry producer) hd hf]
      exact (h f (Registry.mem_of_find? hf) _ props q q' hq).nested
  · rw [invoke_undeclared hd, invoke_undeclared (s := s.elsewhere s.registry producer) hd]
    exact .refl _ _

end Moved

end Scope

namespace Registry

variable {r : Registry}

theorem carries_renderLayer (hr : ∀ f ∈ r.fragments, f.PassesFailures) {render : Renderer}
    (h : r.Carries render) : r.Carries (r.renderLayer render) := by
  intro f hf σ props q q' hq
  have hbody : ((r.scope f props q).evalBody render).Alike RenderStop.fault
      ((r.scope f props q').evalBody render) :=
    Scope.evalBody_alike (s := r.scope f props q) hq (Scope.invoke_alike h) (hr f hf)
  exact (hbody.inFragment f.name).nest {}

theorem carries_renderFragment (hr : ∀ f ∈ r.fragments, f.PassesFailures) :
    r.Carries r.renderFragment := by
  unfold renderFragment
  generalize r.size = n
  induction n with
  | zero => exact fun _ _ _ _ _ _ _ => .refl _ _
  | succ n ih => exact carries_renderLayer hr ih

end Registry

end StaticSite
