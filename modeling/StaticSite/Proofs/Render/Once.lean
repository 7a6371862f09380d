import StaticSite.Proofs.Render.Contract

namespace StaticSite

namespace Run

abbrev Preserves (I : σ → Prop) (x : Run σ ε α) : Prop :=
  x.Meets I (fun _ => True) (fun _ => True)

variable {I : σ → Prop}

theorem preserves_iff {x : Run σ ε α} : x.Preserves I ↔ ∀ s, I s → I (x s).state := by
  refine ⟨fun h s hs => (h s hs).1, fun h s hs => ⟨h s hs, ?_⟩⟩
  cases (x s).result <;> trivial

theorem Preserves.mapError {x : Run σ ε α} (h : x.Preserves I) (f : ε → ε') :
    (x.mapError f).Preserves I :=
  Meets.mapError h fun _ _ => trivial

theorem Preserves.attempt {x : Run σ ε α} (h : x.Preserves I) :
    (x.attempt : Run σ ε' _).Preserves I :=
  fun s hs => ⟨(h s hs).1, trivial⟩

theorem preserves_ofExcept (x : Except ε α) : (ofExcept x : Run σ ε α).Preserves I :=
  preserves_iff.mpr fun _ hs => hs

abbrev CallerPreserves (I : σ → Prop) (p : Producer σ) : Prop :=
  Preserves (SlotMeets (fun _ => True) (fun _ => True) I) p

end Run

def Renderer.Transparent (render : Renderer) : Prop :=
  ∀ f : Fragment, f.Meets render (fun _ => True) (fun _ => True)

namespace Scope

variable {s : Scope σ} {I : Slot × σ → Prop} {render : Renderer}

theorem invoke_preserves (hrender : render.Transparent) {name : String} {props : Props}
    {q : Option (Producer (Slot × σ))} (hq : ∀ p ∈ q, Run.CallerPreserves I p) :
    (s.invoke render name props q).Preserves I := by
  by_cases hd : name ∈ s.fragment.dependencies
  · cases hf : s.registry.find? name with
    | none =>
      rw [invoke_unknown hd hf]
      exact Run.meets_fail trivial
    | some f => exact invoke_meets hd hf (fun _ _ => trivial) (hrender f _ I props q hq)
  · rw [invoke_undeclared hd]
    exact Run.meets_fail trivial

theorem nodeMeets_of_preserves (hchildren : (Slot.children s.producer).Preserves I)
    (hrender : render.Transparent) (t : Template) (n : Node) :
    NodeMeets render t s I (fun _ => True) (fun _ => True) (fun _ => True) n := by
  cases n with
  | text text => trivial
  | output what raw pos =>
    intro rounds
    cases what with
    | reference x =>
      rw [output]
      split
      · exact Run.meets_pure trivial
      · split
        · exact Run.meets_fail trivial
        · exact Run.meets_pure trivial
    | children => exact (hchildren.mapError _).mapError _
    | classes => exact Run.meets_pure trivial
    | accessible => exact Run.meets_pure trivial
    | attributes => exact Run.meets_pure trivial
  | cond test negate yes no pos => trivial
  | each source body no pos => exact fun outer => rounds_ends fun _ => trivial
  | invoke call block pos =>
    refine ⟨fun rounds => callProps_ends fun _ _ => trivial, fun props q hq => ?_⟩
    exact (invoke_preserves hrender hq).mapError _

theorem act_preserves (hchildren : (Slot.children s.producer).Preserves I)
    (hrender : render.Transparent) (a : Action) : (s.act render a).Preserves I := by
  cases a with
  | children => exact hchildren.mapError _
  | tryChildren => exact hchildren.attempt.bind fun _ _ => Run.meets_pure trivial
  | invoke name props children =>
    refine invoke_preserves hrender ?_
    simp only [Option.mem_map]
    rintro p ⟨x, -, rfl⟩
    exact Run.preserves_ofExcept _
  | fail message => exact Run.meets_fail trivial
  | _ => exact Run.meets_pure trivial

theorem evalBody_preserves (hchildren : (Slot.children s.producer).Preserves I)
    (hrender : render.Transparent) : (s.evalBody render).Preserves I := by
  have hcomposes : s.Composes (fun _ => True) (fun _ => True) (fun _ => True) :=
    ⟨trivial, fun _ _ => trivial, fun _ => trivial⟩
  cases hb : s.fragment.body with
  | template t =>
    rw [evalBody_template hb]
    exact evalNodes_meets hcomposes [] t.nodes fun n _ =>
      nodeMeets_of_preserves hchildren hrender t n
  | native actions =>
    rw [evalBody_native hb]
    exact (Run.Meets.mapM (act_preserves hchildren hrender) actions).bind fun _ _ =>
      Run.meets_pure trivial

end Scope

namespace Registry

variable {r : Registry}

theorem transparent_renderLayer {render : Renderer} (hrender : render.Transparent) :
    (r.renderLayer render).Transparent := by
  intro f σ I props q hq
  have hbody := Scope.evalBody_preserves (s := r.scope f props q)
    (Run.meets_children trivial hq) hrender
  exact (hbody.mapError _).nest

theorem transparent_renderFragment : r.renderFragment.Transparent := by
  unfold renderFragment
  induction r.size with
  | zero => exact fun _ _ _ _ _ _ => Run.meets_fail trivial
  | succ n ih => exact transparent_renderLayer ih

end Registry

def SlotEvent.result : SlotEvent → Except RenderError String
  | produced result | repeated result => result
  | refused => .ok ""

theorem Slot.children_noted (p : Producer σ) (x : Slot × σ) :
    (children (some p) x).state.1.events.head?.map SlotEvent.result =
      some (children (some p) x).result := by
  obtain ⟨⟨busy, content, events⟩, s⟩ := x
  cases content with
  | some result => rfl
  | none => cases busy <;> rfl

namespace Producer

/-- While it runs, the producer may ask for the very content that it makes, but has no other access
to the slot. -/
def Fair (p : Producer σ) : Prop :=
  ∀ events s, ∃ k, (p (⟨true, none, events⟩, s)).state.1 =
    ⟨true, none, List.replicate k .refused ++ events⟩

inductive Built : {σ : Type} → Producer σ → Prop
  | block {σ : Type} (render : Renderer) (t : Template) (s : Scope σ) (rounds : List Round)
      (nodes : List Node) :
    Built ((Scope.evalNodes render t s rounds nodes).mapError
      (RenderStop.inFragment s.fragment.name)).onSecond
  | page {σ : Type} {r : Registry} (c : PageTree r) (cs : List (PageTree r)) :
    Built (do
      let html ← c.render
      return html ++ (← PageTree.renderAll cs) : Run σ RenderError String).onSecond

theorem Built.keeps_slot {p : Producer σ} (h : p.Built) (x : Slot × σ) : (p x).state.1 = x.1 := by
  cases h <;> rfl

theorem fair_of_keeps_slot {p : Producer σ} (h : ∀ x, (p x).state.1 = x.1) : p.Fair :=
  fun _ _ => ⟨0, h _⟩

def counted (p : Producer σ) : Producer (Nat × σ) := fun (slot, n, s) =>
  let r := p (slot, s)
  ⟨r.result, (r.state.1, n + 1, r.state.2), r.depth⟩

theorem Fair.counted {p : Producer σ} (h : p.Fair) : p.counted.Fair := fun events s => h events s.2

inductive Served (p : Producer σ) (s : σ) : Slot × σ → Prop
  | unused : Served p s ({}, s)
  | used (k m : Nat) : (p ({ busy := true }, s)).state.1.events = List.replicate k .refused →
    Served p s
      (⟨true, some (p ({ busy := true }, s)).result,
        List.replicate m (.repeated (p ({ busy := true }, s)).result) ++
          .produced (p ({ busy := true }, s)).result :: List.replicate k .refused⟩,
        (p ({ busy := true }, s)).state.2)

theorem Fair.children_served {p : Producer σ} (h : p.Fair) (s : σ) :
    (Slot.children (some p)).Preserves (p.Served s) := by
  refine Run.preserves_iff.mpr fun x hx => ?_
  cases hx with
  | unused =>
    obtain ⟨k, hk⟩ := h [] s
    rw [List.append_nil] at hk
    have hserved := Served.used (p := p) (s := s) k 0 (congrArg Slot.events hk)
    simpa [Slot.children, Slot.note, hk] using hserved
  | used k m hk => exact .used k (m + 1) hk

end Producer

def Fragment.twice : Fragment where
  name := "twice"
  body := .native [.children, .text "|", .tryChildren]

namespace Registry

/-- Whatever a fragment does with its child content, it is produced at most once, and not at all if
nothing refers to it. All references give what the first one gave. Only a producer that asks for its
own content is refused it, and none that a block or a page gives does so. -/
theorem renderId_produces_once (fs : List Fragment) (id : (entered fs).Id) (props : Props)
    (p : Producer σ) (hp : p.Fair) (n : Nat) (s : σ) :
    let r := entered fs
    let made := p ({ busy := true }, s)
    let body := (r.scope (r.get id) props (some p.counted)).evalBody r.renderFragment ({}, n, s)
    r.renderId id props (some p.counted) (n, s) =
        ⟨body.result.mapError (RenderStop.inFragment (r.get id).name), body.state.2,
          body.depth + 1⟩ ∧
      (body.state.1.events = [] ∧ body.state.2 = (n, s) ∨
        ∃ m k, body.state.1.events =
            List.replicate m (.repeated made.result) ++
              .produced made.result :: List.replicate k .refused ∧
          body.state.2 = (n + 1, made.state.2) ∧ (p.Built → k = 0)) ∧
      ∀ x, (Slot.children (some p.counted) x).state.1.events.head?.map SlotEvent.result =
        some (Slot.children (some p.counted) x).result := by
  intro r made body
  have hlayer : r.renderId id props (some p.counted) =
      r.renderLayer r.renderFragment _ (r.get id) props (some p.counted) := by
    rw [renderId, (wellFormed_entered fs).renderFragment_eq (r.get_mem id)]
  refine ⟨by rw [hlayer]; rfl, ?_, Slot.children_noted _⟩
  have hserved : p.counted.Served (n, s) body.state :=
    Run.preserves_iff.mp
      (Scope.evalBody_preserves (s := r.scope (r.get id) props (some p.counted))
        (hp.counted.children_served (n, s)) transparent_renderFragment) _ .unused
  generalize body.state = final at hserved
  cases hserved with
  | unused => exact .inl ⟨rfl, rfl⟩
  | used k m hk =>
    refine .inr ⟨m, k, rfl, rfl, fun hbuilt => ?_⟩
    have hslot : made.state.1.events = [] := congrArg Slot.events (hbuilt.keeps_slot _)
    have hlength := congrArg List.length (hslot.symm.trans hk)
    simpa using hlength.symm

theorem renderId_twice_produces_once :
    let fs := [Fragment.twice]
    let r := entered fs
    let id : r.Id := ⟨0, by decide⟩
    let p : Producer Unit := (Supply.html "x").producer
    let made := p ({ busy := true }, ())
    let body := (r.scope (r.get id) [] (some p.counted)).evalBody r.renderFragment ({}, 0, ())
    p.Fair ∧ made.result = .ok "x" ∧ body.result.toOption = some "x|ok(x)" ∧
      r.renderId id [] (some p.counted) (0, ()) =
        ⟨body.result.mapError (RenderStop.inFragment (r.get id).name), body.state.2,
          body.depth + 1⟩ ∧
      (body.state.1.events = [] ∧ body.state.2 = (0, ()) ∨
        ∃ m k, body.state.1.events =
            List.replicate m (.repeated made.result) ++
              .produced made.result :: List.replicate k .refused ∧
          body.state.2 = (1, made.state.2) ∧ (p.Built → k = 0)) ∧
      ∀ x, (Slot.children (some p.counted) x).state.1.events.head?.map SlotEvent.result =
        some (Slot.children (some p.counted) x).result := by
  intro fs r id p made body
  have hp : p.Fair := Producer.fair_of_keeps_slot fun _ => rfl
  exact ⟨hp, rfl, rfl, renderId_produces_once fs id [] p hp 0 ()⟩

end Registry

end StaticSite
