import Mathlib.Data.Option.Defs
import StaticSite.Proofs.Render.Run
import StaticSite.Proofs.Template.Nodes
import StaticSite.Render.Basic

namespace StaticSite.Scope

def elsewhere (s : Scope σ) (r : Registry) (producer : Option (Producer σ)) : Scope σ :=
  { s with registry := r, producer }

theorem evalBody_template {s : Scope σ} {t : Template} (h : s.fragment.body = .template t)
    (render : Renderer) : s.evalBody render = evalNodes render t s [] t.nodes := by
  rw [evalBody, h]

theorem evalBody_native {s : Scope σ} {actions : List Action}
    (h : s.fragment.body = .native actions) (render : Renderer) :
    s.evalBody render = s.actAll render actions := by
  rw [evalBody, h]

section Nodes

variable {render : Renderer} {t : Template} {s : Scope σ} {rounds : List Round}

theorem evalNodes_singleton (n : Node) :
    evalNodes render t s rounds [n] = evalNode render t s rounds n := by
  simp [evalNodes]

theorem evalNodes_append (ns ms : List Node) :
    evalNodes render t s rounds (ns ++ ms) = (do
      let html ← evalNodes render t s rounds ns
      return html ++ (← evalNodes render t s rounds ms)) := by
  induction ns with
  | nil => simp only [List.nil_append, evalNodes, pure_bind, String.empty_append, bind_pure]
  | cons n ns ih =>
    simp only [List.cons_append, evalNodes, ih, bind_assoc, pure_bind, String.append_assoc]

end Nodes

section Invoke

variable {s : Scope σ} {name : String} {props : Props} {q : Option (Producer (Slot × σ))}

theorem invoke_undeclared (hd : name ∉ s.fragment.dependencies) (render : Renderer) :
    s.invoke render name props q = .fail (.raised none (.undeclared name)) := by
  have hdepends : s.fragment.dependsOn name = false := by simpa [Fragment.dependsOn] using hd
  simp [invoke, hdepends]

theorem invoke_unknown (hd : name ∈ s.fragment.dependencies) (hf : s.registry.find? name = none)
    (render : Renderer) :
    s.invoke render name props q = .fail (.raised none (.unknownFragment name)) := by
  have hdepends : s.fragment.dependsOn name = true := by simpa [Fragment.dependsOn] using hd
  simp [invoke, hdepends, hf]

theorem invoke_found (hd : name ∈ s.fragment.dependencies) {f : Fragment}
    (hf : s.registry.find? name = some f) (render : Renderer) :
    s.invoke render name props q =
      (render (Slot × σ) f props q).mapError fun e => .nested none e := by
  have hdepends : s.fragment.dependsOn name = true := by simpa [Fragment.dependsOn] using hd
  simp [invoke, hdepends, hf]

end Invoke

section Congruence

variable {s : Scope σ} {r : Registry} {producer : Option (Producer σ)} {render render' : Renderer}

theorem children_rel (c : Run.Congruence) (hp : Option.Rel c.Rel s.producer producer) :
    c.Rel s.children (s.elsewhere r producer).children := by
  apply c.mapError
  change c.Rel (Slot.children s.producer) (Slot.children producer)
  generalize s.producer = q at hp ⊢
  cases hp with
  | some hp => exact c.children hp
  | none => exact c.refl _

theorem output_rel (c : Run.Congruence) (hp : Option.Rel c.Rel s.producer producer)
    (here : Location) (rounds : List Round) (raw : Bool) (what : Output) :
    c.Rel (s.output here rounds raw what)
      ((s.elsewhere r producer).output here rounds raw what) := by
  cases what with
  | reference x => exact c.refl _
  | children => exact c.mapError _ (children_rel c hp)
  | classes => exact c.refl _
  | accessible => exact c.refl _
  | attributes => exact c.refl _

def InvokeRel (c : Run.Congruence) (s s' : Scope σ) (render render' : Renderer) : Prop :=
  ∀ name props q q', Option.Rel c.Rel q q' →
    c.Rel (s.invoke render name props q) (s'.invoke render' name props q')

mutual

theorem evalNode_rel (c : Run.Congruence) (hp : Option.Rel c.Rel s.producer producer)
    (hi : InvokeRel c s (s.elsewhere r producer) render render') (t : Template) :
    (rounds : List Round) → (n : Node) →
      c.Rel (evalNode render t s rounds n) (evalNode render' t (s.elsewhere r producer) rounds n)
  | _, .text _ => by
    rw [evalNode, evalNode]
    exact c.refl _
  | rounds, .output what raw pos => by
    rw [evalNode, evalNode]
    exact output_rel c hp _ rounds raw what
  | rounds, .cond test negate yes no _ => by
    rw [evalNode, evalNode]
    change c.Rel _ (if s.holds rounds test != negate then _ else _)
    split
    · exact evalNodes_rel c hp hi t rounds yes
    · exact evalNodes_rel c hp hi t rounds no
  | rounds, .each source body no pos => by
    rw [evalNode, evalNode]
    refine c.bind (c.refl _) fun inner => ?_
    split
    · exact evalNodes_rel c hp hi t rounds no
    · have hbody := c.mapM (fun round => evalNodes_rel c hp hi t (round :: rounds) body) inner
      exact c.bind hbody fun _ => c.refl _
  | rounds, .invoke call none pos => by
    rw [evalNode, evalNode]
    exact c.bind (c.refl _) fun props => c.mapError _ (hi call.name props none none .none)
  | rounds, .invoke call (some block) pos => by
    rw [evalNode, evalNode]
    have hblock := c.mapError (RenderStop.inFragment s.fragment.name)
      (evalNodes_rel c hp hi t rounds block)
    refine c.bind (c.refl _) fun props => c.mapError _ (hi call.name props _ _ (.some ?_))
    exact c.onSecond hblock

theorem evalNodes_rel (c : Run.Congruence) (hp : Option.Rel c.Rel s.producer producer)
    (hi : InvokeRel c s (s.elsewhere r producer) render render') (t : Template) :
    (rounds : List Round) → (ns : List Node) →
      c.Rel (evalNodes render t s rounds ns) (evalNodes render' t (s.elsewhere r producer) rounds ns)
  | _, [] => by
    rw [evalNodes, evalNodes]
    exact c.refl _
  | rounds, n :: ns => by
    rw [evalNodes, evalNodes]
    exact c.bind (evalNode_rel c hp hi t rounds n) fun _ =>
      c.bind (evalNodes_rel c hp hi t rounds ns) fun _ => c.refl _

end

theorem evalBody_congr (hi : ∀ name props q,
      s.invoke render name props q = (s.elsewhere r s.producer).invoke render' name props q) :
    s.evalBody render = (s.elsewhere r s.producer).evalBody render' := by
  have hp : Option.Rel Eq s.producer s.producer := by cases s.producer <;> constructor; rfl
  have hrel : InvokeRel .eq s (s.elsewhere r s.producer) render render' := by
    rintro name props q q' (⟨rfl⟩ | ⟨⟩) <;> exact hi name props _
  have hact : s.act render = (s.elsewhere r s.producer).act render' := by
    funext a
    cases a with
    | invoke name props children => exact hi name props _
    | _ => rfl
  cases hb : s.fragment.body with
  | template t =>
    rw [evalBody_template hb, evalBody_template (s := s.elsewhere r s.producer) hb]
    exact evalNodes_rel .eq hp hrel t [] t.nodes
  | native actions =>
    rw [evalBody_native hb, evalBody_native (s := s.elsewhere r s.producer) hb]
    simp only [actAll, hact]

end Congruence

section Contracts

variable {render : Renderer} {t : Template} {s : Scope σ} {I : Slot × σ → Prop} {Q : String → Prop}
  {E : RenderStop → Prop} {F : RenderError → Prop}

/-- What a contract asks of a node, apart from the nodes inside it. `F` is for the errors of child
content, and `I` for the state of the fragment. -/
def NodeMeets (render : Renderer) (t : Template) (s : Scope σ) (I : Slot × σ → Prop)
    (Q : String → Prop) (E : RenderStop → Prop) (F : RenderError → Prop) : Node → Prop
  | .text text => Q text
  | .output what raw pos => ∀ rounds, (s.output (t.locate pos) rounds raw what).Meets I Q E
  | .cond _ _ _ _ _ => True
  | .each source _ _ pos => ∀ outer, Ends (fun _ => True) E (s.rounds (t.locate pos) outer source)
  | .invoke call _ pos =>
    (∀ rounds, Ends (fun _ => True) E (s.callProps (t.locate pos) rounds call)) ∧
      ∀ props q, (∀ p ∈ q, p.Meets (Run.SlotMeets Q F I) Q F) →
        ((s.invoke render call.name props q).mapError (RenderStop.locate (t.locate pos))).Meets I Q E

theorem rounds_ends {here : Location} {outer : List Round} {x : Reference}
    (hE : ∀ v, E (.raised (some here) (.notIterable x.text (Value.kind v)))) :
    Ends (fun _ => True) E (s.rounds here outer x) := by
  unfold rounds
  split
  · trivial
  · split
    · trivial
    · exact hE _

theorem callProps_ends {here : Location} {rounds : List Round} {call : Call}
    (hE : ∀ x v, E (.raised (some here) (.propsNotMap call.name x (Value.kind v)))) :
    Ends (fun _ => True) E (s.callProps here rounds call) := by
  have hbase : Ends (fun _ => True) E (s.baseProps here rounds call) := by
    unfold baseProps
    split
    · trivial
    · split
      · trivial
      · trivial
      · trivial
      · exact hE _ _
  unfold callProps
  cases hb : s.baseProps here rounds call with
  | error e =>
    rw [hb] at hbase
    exact hbase
  | ok base => trivial

theorem children_meets {J : σ → Prop} (hnil : Q "") (hE : ∀ e, F e → E (.nested none e))
    (hp : ∀ p ∈ s.producer, p.Meets (Run.SlotMeets Q F J) Q F) :
    s.children.Meets (Run.SlotMeets Q F J) Q E :=
  (Run.meets_children hnil hp).mapError hE

theorem invoke_meets {name : String} {props : Props} {q : Option (Producer (Slot × σ))}
    {f : Fragment} (hd : name ∈ s.fragment.dependencies) (hf : s.registry.find? name = some f)
    (hE : ∀ e, F e → E (.nested none e)) (h : (render (Slot × σ) f props q).Meets I Q F) :
    (s.invoke render name props q).Meets I Q E := by
  rw [invoke_found hd hf]
  exact h.mapError hE

structure Composes (s : Scope σ) (Q : String → Prop) (E : RenderStop → Prop)
    (F : RenderError → Prop) : Prop where
  empty : Q ""
  append : ∀ {a b}, Q a → Q b → Q (a ++ b)
  inFragment : ∀ {e}, E e → F (e.inFragment s.fragment.name)

theorem Composes.join (h : s.Composes Q E F) {pieces : List String} (hp : ∀ a ∈ pieces, Q a) :
    Q (String.join pieces) :=
  List.foldlRecOn pieces _ h.empty fun _ hb a ha => h.append hb (hp a ha)

mutual

theorem evalNode_meets (h : s.Composes Q E F) : (rounds : List Round) → (n : Node) →
    (∀ m ∈ Template.nodeParts n, NodeMeets render t s I Q E F m) →
      (evalNode render t s rounds n).Meets I Q E
  | _, .text text, hn => by
    rw [evalNode]
    exact Run.meets_pure (hn (.text text) (by simp [Template.nodeParts]))
  | rounds, .output what raw pos, hn => by
    rw [evalNode]
    exact hn (.output what raw pos) (by simp [Template.nodeParts]) rounds
  | rounds, .cond test negate yes no pos, hn => by
    rw [evalNode]
    simp only [Template.nodeParts, List.mem_cons, List.mem_append] at hn
    split
    · exact evalNodes_meets h rounds yes fun m hm => hn m (.inr (.inl hm))
    · exact evalNodes_meets h rounds no fun m hm => hn m (.inr (.inr hm))
  | rounds, .each source body no pos, hn => by
    rw [evalNode]
    simp only [Template.nodeParts, List.mem_cons, List.mem_append] at hn
    refine (Run.meets_ofExcept (hn _ (.inl rfl) rounds)).bind fun inner _ => ?_
    split
    · exact evalNodes_meets h rounds no fun m hm => hn m (.inr (.inr hm))
    · have hbody := Run.Meets.mapM (fun round =>
        evalNodes_meets h (round :: rounds) body fun m hm => hn m (.inr (.inl hm))) inner
      exact hbody.bind fun pieces hp => Run.meets_pure (h.join hp)
  | rounds, .invoke call none pos, hn => by
    rw [evalNode]
    obtain ⟨hprops, hcall⟩ := hn (.invoke call none pos) (by simp [Template.nodeParts])
    exact (Run.meets_ofExcept (hprops rounds)).bind fun props _ => hcall props none nofun
  | rounds, .invoke call (some block) pos, hn => by
    rw [evalNode]
    simp only [Template.nodeParts, List.mem_cons] at hn
    obtain ⟨hprops, hcall⟩ := hn _ (.inl rfl)
    refine (Run.meets_ofExcept (hprops rounds)).bind fun props _ => hcall props _ ?_
    rintro p ⟨⟩
    have hblock := evalNodes_meets h rounds block fun m hm => hn m (.inr hm)
    exact (hblock.mapError fun e he => h.inFragment he).onSecond

theorem evalNodes_meets (h : s.Composes Q E F) : (rounds : List Round) → (ns : List Node) →
    (∀ m ∈ Template.nodesParts ns, NodeMeets render t s I Q E F m) →
      (evalNodes render t s rounds ns).Meets I Q E
  | _, [], _ => by
    rw [evalNodes]
    exact Run.meets_pure h.empty
  | rounds, n :: ns, hn => by
    rw [evalNodes]
    simp only [Template.nodesParts, List.mem_append] at hn
    have first := evalNode_meets h rounds n fun m hm => hn m (.inl hm)
    have rest := evalNodes_meets h rounds ns fun m hm => hn m (.inr hm)
    exact first.bind fun a ha => rest.bind fun b hb => Run.meets_pure (h.append ha hb)

end

end Contracts

end StaticSite.Scope
