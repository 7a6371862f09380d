import StaticSite.Proofs.Render.Closed

namespace StaticSite

namespace RenderError

def links : RenderError → List (String × Option Location)
  | raised f l _ => [(f, l)]
  | nested f l inner => (f, l) :: inner.links

theorem head?_chain (e : RenderError) : e.chain.head? = some e.fragment := by cases e <;> rfl

theorem innermost_raised (e : RenderError) : ∃ f l x, e.innermost = .raised f l x := by
  induction e with
  | raised f l x => exact ⟨f, l, x, rfl⟩
  | nested f l inner ih => exact ih

end RenderError

def Node.span? : Node → Option Position
  | .text _ | .cond _ _ _ _ _ => none
  | .output _ _ pos | .each _ _ _ pos | .invoke _ _ pos => some pos

def Template.Marks (t : Template) (l : Location) : Prop :=
  l.source = t.source ∧ ∃ n ∈ nodesParts t.nodes, n.span? = some l.pos

theorem Template.marks_locate {t : Template} {n : Node} {pos : Position}
    (hn : n ∈ nodesParts t.nodes) (hpos : n.span? = some pos) : t.Marks (t.locate pos) :=
  ⟨rfl, n, hn, hpos⟩

/-- Each link of an error has a location, at a tag of the template of its fragment. -/
def RenderError.Traced (r : Registry) (e : RenderError) : Prop :=
  ∀ name location, (name, location) ∈ e.links →
    ∃ f t l, r.find? name = some f ∧ f.body = .template t ∧ location = some l ∧ t.Marks l

namespace RenderStop

inductive Traced (r : Registry) (t : Template) : RenderStop → Prop
  | raised {l : Location} {x : RenderFault} : t.Marks l → Traced r t (.raised (some l) x)
  | nested {l : Location} {e : RenderError} :
    t.Marks l → e.Traced r → Traced r t (.nested (some l) e)

inductive Unplaced (r : Registry) : RenderStop → Prop
  | raised {x : RenderFault} : Unplaced r (.raised none x)
  | nested {e : RenderError} : e.Traced r → Unplaced r (.nested none e)

variable {r : Registry} {t : Template}

theorem Unplaced.locate {e : RenderStop} {l : Location} (h : e.Unplaced r) (hl : t.Marks l) :
    (e.locate l).Traced r t := by
  cases h with
  | raised => exact .raised hl
  | nested he => exact .nested hl he

theorem Traced.inFragment {e : RenderStop} {f : Fragment} (h : e.Traced r t)
    (hf : r.find? f.name = some f) (ht : f.body = .template t) : (e.inFragment f.name).Traced r := by
  intro name location hlink
  cases h with
  | raised hl =>
    obtain ⟨rfl, rfl⟩ : name = f.name ∧ location = _ := by
      simpa [RenderStop.inFragment, RenderError.links] using hlink
    exact ⟨f, t, _, hf, ht, rfl, hl⟩
  | nested hl he =>
    obtain ⟨rfl, rfl⟩ | hinner : (name = f.name ∧ location = _) ∨ (name, location) ∈ _ := by
      simpa [RenderStop.inFragment, RenderError.links] using hlink
    · exact ⟨f, t, _, hf, ht, rfl, hl⟩
    · exact he name location hinner

@[simp] theorem fragment_inFragment (name : String) (e : RenderStop) :
    (e.inFragment name).fragment = name := by cases e <;> rfl

end RenderStop

def Fragment.FailsTraced (r : Registry) (f : Fragment) (render : Renderer) : Prop :=
  f.Meets render (fun _ => True) (RenderError.Traced r)

namespace Registry

theorem nodeMeets_of_marks {r : Registry} {s : Scope σ} {I : σ → Prop} {render : Renderer}
    {t : Template} {n : Node} (hn : n ∈ Template.nodesParts t.nodes)
    (hp : ∀ p ∈ s.producer,
      p.Meets (Run.SlotMeets (fun _ => True) (RenderError.Traced r) I) (fun _ => True)
        (RenderError.Traced r))
    (hcall : ∀ d ∈ s.fragment.dependencies, ∀ f, s.registry.find? d = some f →
      f.FailsTraced r render) :
    Scope.NodeMeets render t s (Run.SlotMeets (fun _ => True) (RenderError.Traced r) I)
      (fun _ => True) (RenderStop.Traced r t) (RenderError.Traced r) n := by
  cases n with
  | text text => trivial
  | output what raw pos =>
    have hmark := Template.marks_locate hn rfl
    intro rounds
    cases what with
    | reference x =>
      rw [Scope.output]
      split
      · exact Run.meets_pure trivial
      · split
        · exact Run.meets_fail (.raised hmark)
        · exact Run.meets_pure trivial
    | children =>
      have hchildren := Scope.children_meets (E := RenderStop.Unplaced r) trivial
        (fun _ he => .nested he) hp
      exact hchildren.mapError fun _ he => he.locate hmark
    | classes => exact Run.meets_pure trivial
    | accessible => exact Run.meets_pure trivial
    | attributes => exact Run.meets_pure trivial
  | cond test negate yes no pos => trivial
  | each source body no pos =>
    have hmark := Template.marks_locate hn rfl
    exact fun outer => Scope.rounds_ends fun v => .raised hmark
  | invoke call block pos =>
    have hmark := Template.marks_locate hn rfl
    refine ⟨fun rounds => Scope.callProps_ends fun x v => .raised hmark, fun props q hq => ?_⟩
    have hinvoke : (s.invoke render call.name props q).Meets
        (Run.SlotMeets (fun _ => True) (RenderError.Traced r) I) (fun _ => True)
        (RenderStop.Unplaced r) := by
      by_cases hd : call.name ∈ s.fragment.dependencies
      · cases hf : s.registry.find? call.name with
        | none =>
          rw [Scope.invoke_unknown hd hf]
          exact Run.meets_fail .raised
        | some f =>
          have hrender := hcall _ hd f hf _ _ props q hq
          exact Scope.invoke_meets hd hf (fun _ he => .nested he) hrender
      · rw [Scope.invoke_undeclared hd]
        exact Run.meets_fail .raised
    exact hinvoke.mapError fun _ he => he.locate hmark

theorem WellFormed.renderFragment_failsTraced {r : Registry} (h : r.WellFormed)
    (hr : ∀ f ∈ r.fragments, ∃ t, f.body = .template t) {f : Fragment} (hf : f ∈ r.fragments) :
    f.FailsTraced r r.renderFragment := by
  refine h.induction ?_ hf
  intro f hf ih
  obtain ⟨t, ht⟩ := hr f hf
  have hcomposes : ∀ σ props (q : Option (Producer σ)),
      (r.scope f props q).Composes (fun _ => True) (RenderStop.Traced r t) (RenderError.Traced r) :=
    fun _ _ _ => ⟨trivial, fun _ _ => trivial, fun he => he.inFragment (h.find?_name hf) ht⟩
  have hlayer : f.FailsTraced r (r.renderLayer r.renderFragment) :=
    renderLayer_meets ht hcomposes fun σ I props q hq n hn => nodeMeets_of_marks hn hq ih
  intro σ
  rw [h.renderFragment_eq hf]
  exact hlayer σ

theorem WellFormed.fragment_of_renderId {r : Registry} (h : r.WellFormed) {id : r.Id}
    {props : Props} {producer : Option (Producer σ)} {s : σ} {e : RenderError}
    (he : (r.renderId id props producer s).result = .error e) : e.fragment = (r.get id).name := by
  rw [renderId, h.renderFragment_eq (r.get_mem id)] at he
  change (Run.mapError _ _ _).result = .error e at he
  cases hbody : ((r.scope (r.get id) props producer).evalBody r.renderFragment ({}, s)).result with
  | ok html => simp [Run.mapError, hbody, Except.mapError] at he
  | error stop =>
    simp only [Run.mapError, hbody, Except.mapError, Except.error.injEq] at he
    rw [← he, RenderStop.fragment_inFragment]

end Registry

def Fragment.caption : Fragment where
  name := "caption"
  body := .template ⟨"caption", [.output (.reference ⟨"words", .scope, ["words"]⟩) false ⟨1, 1⟩]⟩

namespace PageTree

open Registry

/-- What a page fails with begins at its outermost fragment. Each fragment on the way is told with the
tag of its own template that the failure came through, also where the content of a block fails, which
another fragment asks for. -/
theorem render_error_traced (fs : List Fragment) (hfs : ∀ f ∈ fs, ∃ t, f.body = .template t)
    (tree : PageTree (entered fs)) (s : σ) (e : RenderError)
    (he : (tree.render s).result = .error e) :
    (∃ id props children, tree = .fragment id props children ∧
        e.chain.head? = some ((entered fs).get id).name) ∧
      e.Traced (entered fs) ∧ ∃ f l x, e.innermost = .raised f l x := by
  have hwell := wellFormed_entered fs
  have hmeets := render_meets
    (fun f hf => hwell.renderFragment_failsTraced (fun g hg => hfs g (mem_of_mem_entered g hg)) hf)
    trivial (fun _ _ => trivial) (fun _ => trivial) tree σ (fun _ => True)
  obtain ⟨-, hend⟩ := hmeets s trivial
  rw [he] at hend
  refine ⟨?_, hend, e.innermost_raised⟩
  rw [RenderError.head?_chain]
  cases tree with
  | text text =>
    rw [render] at he
    cases he
  | fragment id props children =>
    refine ⟨id, props, children, rfl, congrArg some ?_⟩
    cases children with
    | nil =>
      rw [render] at he
      exact hwell.fragment_of_renderId he
    | cons c cs =>
      rw [render] at he
      exact hwell.fragment_of_renderId he

theorem render_caption_traced :
    let fs := [Fragment.card, Fragment.badge, Fragment.caption]
    let tree : PageTree (entered fs) :=
      .fragment ⟨0, by decide⟩ [] [.fragment ⟨2, by decide⟩ [("words", .list [])] []]
    let e : RenderError :=
      .nested "card" (some ⟨"card", ⟨1, 1⟩⟩) <| .nested "badge" (some ⟨"badge", ⟨1, 4⟩⟩) <|
        .nested "card" (some ⟨"card", ⟨1, 13⟩⟩) <|
          .raised "caption" (some ⟨"caption", ⟨1, 1⟩⟩) (.notText "words" "list")
    (∀ f ∈ fs, ∃ t, f.body = .template t) ∧ (tree.render ()).result = .error e ∧
      (∃ id props children, tree = .fragment id props children ∧
        e.chain.head? = some ((entered fs).get id).name) ∧
      e.Traced (entered fs) ∧ ∃ f l x, e.innermost = .raised f l x := by
  intro fs tree e
  have hfs : ∀ f ∈ fs, ∃ t, f.body = .template t := by
    simp [fs, Fragment.card, Fragment.badge, Fragment.caption]
  have he : (tree.render ()).result = .error e := by rfl
  exact ⟨hfs, he, render_error_traced fs hfs tree () e he⟩

end PageTree

end StaticSite
