import StaticSite.Proofs.Render.Layers

/-! Rendering is local: it depends on a fragment and on what that reaches, and on nothing else of the
registry. -/

namespace StaticSite.Registry

theorem render_eq (r : Registry) (name : String) (props : Props) (producer : Option (Producer σ)) :
    r.render name props producer = match r.find? name with
      | some f => (r.renderFragment σ f props producer).mapError .render
      | none => .fail (.unknown name none) := by
  unfold render find?
  cases r.id? name <;> rfl

theorem WellFormed.mem_of_find?_eq {r r' : Registry} (h : r.WellFormed) {f : Fragment}
    (hf : f ∈ r.fragments) (heq : r.find? f.name = r'.find? f.name) : f ∈ r'.fragments :=
  mem_of_find? (heq ▸ h.find?_name hf)

def Agree (r r' : Registry) (name : String) : Prop :=
  ∀ n, r.graph.Reaches name n → r.find? n = r'.find? n

theorem WellFormed.renderFragment_congr {r r' : Registry} (h : r.WellFormed) (h' : r'.WellFormed)
    {f : Fragment} (hf : f ∈ r.fragments) :
    r.Agree r' f.name → ∀ σ, r.renderFragment σ f = r'.renderFragment σ f := by
  refine h.induction ?_ hf
  intro f hf ih hagree σ
  have hedge : ∀ d ∈ f.dependencies, r.graph.Edge f.name d := fun d hd =>
    h.edge_iff.mpr ⟨f, h.find?_name hf, hd⟩
  have hf' := h.mem_of_find?_eq hf (hagree f.name .refl)
  rw [h.renderFragment_eq hf, h'.renderFragment_eq hf']
  refine renderLayer_congr (fun d hd => hagree d (.single (hedge d hd))) (fun d hd g hg τ => ?_) σ
  refine ih d hd g hg (fun n hn => hagree n (.head (hedge d hd) ?_)) τ
  obtain ⟨-, rfl⟩ := h.find?_eq_some_iff.mp hg
  exact hn

theorem WellFormed.render_congr {r r' : Registry} (h : r.WellFormed) (h' : r'.WellFormed)
    {name : String} (hagree : r.Agree r' name) (props : Props) (producer : Option (Producer σ)) :
    r.render name props producer = r'.render name props producer := by
  rw [render_eq, render_eq, ← hagree name .refl]
  cases hf : r.find? name with
  | none => rfl
  | some f =>
    obtain ⟨hmem, rfl⟩ := h.find?_eq_some_iff.mp hf
    simp only [h.renderFragment_congr h' hmem hagree]

theorem below_fail {e : ε} {y : Run σ ε α} : (Run.fail e : Run σ ε α).Below y := nofun

theorem invoke_below {s : Scope σ} {r : Registry} {producer : Option (Producer σ)}
    {render render' : Renderer} (hfind : ∀ n f, s.registry.find? n = some f → r.find? n = some f)
    (hrender : ∀ d ∈ s.fragment.dependencies, ∀ f, s.registry.find? d = some f →
      ∀ τ props (q q' : Option (Producer τ)), Option.Rel Run.Below q q' →
        (render τ f props q).Below (render' τ f props q')) :
    Scope.InvokeRel .below s (s.elsewhere r producer) render render' := by
  intro name props q q' hq
  by_cases hd : name ∈ s.fragment.dependencies
  · cases hf : s.registry.find? name with
    | none =>
      rw [Scope.invoke_unknown hd hf]
      exact below_fail
    | some f =>
      rw [Scope.invoke_found hd hf,
        Scope.invoke_found (s := s.elsewhere r producer) hd (hfind name f hf)]
      exact (hrender name hd f hf _ props q q' hq).mapError _
  · rw [Scope.invoke_undeclared hd]
    exact below_fail

theorem WellFormed.renderFragment_below {r r' : Registry} (h : r.WellFormed) (h' : r'.WellFormed)
    (ht : ∀ f ∈ r.fragments, ∃ t, f.body = .template t)
    (hfind : ∀ n f, r.find? n = some f → r'.find? n = some f) {f : Fragment}
    (hf : f ∈ r.fragments) :
    ∀ σ props (q q' : Option (Producer σ)), Option.Rel Run.Below q q' →
      (r.renderFragment σ f props q).Below (r'.renderFragment σ f props q') := by
  refine h.induction ?_ hf
  intro f hf ih σ props q q' hq
  obtain ⟨t, ht⟩ := ht f hf
  have hf' := mem_of_find? (hfind _ f (h.find?_name hf))
  let s := r.scope f props q
  have hinvoke : Scope.InvokeRel .below s (s.elsewhere r' q') r.renderFragment r'.renderFragment :=
    invoke_below hfind ih
  have hproducer : Option.Rel Run.Congruence.below.Rel s.producer q' := hq
  have hbody := Scope.evalNodes_rel .below hproducer hinvoke t [] t.nodes
  rw [h.renderFragment_eq hf, h'.renderFragment_eq hf']
  unfold renderLayer
  rw [Scope.evalBody_template ht, Scope.evalBody_template ht]
  exact Run.Congruence.below.nest {} (hbody.mapError _)

theorem WellFormed.render_of_find? {r r' : Registry} (h : r.WellFormed) (h' : r'.WellFormed)
    (ht : ∀ f ∈ r.fragments, ∃ t, f.body = .template t)
    (hfind : ∀ n f, r.find? n = some f → r'.find? n = some f) {name : String} {props : Props}
    {producer : Option (Producer σ)} {s : σ} {html : String}
    (hs : (r.render name props producer s).result = .ok html) :
    r'.render name props producer s = r.render name props producer s := by
  rw [render_eq] at hs ⊢
  rw [render_eq]
  cases hf : r.find? name with
  | none => simp [hf, Run.fail] at hs
  | some f =>
    simp only [hf, hfind name f hf] at hs ⊢
    have hq : Option.Rel Run.Below producer producer := by
      cases producer <;> constructor; exact Run.Congruence.below.refl _
    have hbelow := h.renderFragment_below h' ht hfind (mem_of_find? hf) σ props _ _ hq
    exact hbelow.mapError FragmentError.render s html hs

/-- What a name renders to is the same in all registries that agree on it and on all that it
reaches. So fragments can be registered in any order; and where all are templates, registering one
more leaves what renders as it is. -/
theorem render_local :
    (∀ (fs gs : List Fragment) name, (entered fs).Agree (entered gs) name →
      ∀ (σ : Type) props (producer : Option (Producer σ)),
        (entered fs).render name props producer = (entered gs).render name props producer) ∧
    (∀ (fs gs : List Fragment) (r : Registry), fs.Perm gs → fs.foldlM register {} = .ok r →
      ∃ r', gs.foldlM register {} = .ok r' ∧
        ∀ (σ : Type) name props (producer : Option (Producer σ)),
          r.render name props producer = r'.render name props producer) ∧
    ∀ (fs : List Fragment) f r', (∀ g ∈ (entered fs).fragments, ∃ t, g.body = .template t) →
      (entered fs).register f = .ok r' →
        ∀ (σ : Type) name props (producer : Option (Producer σ)) s html,
          ((entered fs).render name props producer s).result = .ok html →
            r'.render name props producer s = (entered fs).render name props producer s := by
  refine ⟨?_, ?_, ?_⟩
  · intro fs gs name hagree σ props producer
    exact (wellFormed_entered fs).render_congr (wellFormed_entered gs) hagree props producer
  · intro fs gs r hp hr
    obtain ⟨h, hfs⟩ := wellFormed_empty.registerAll hr
    have hperm : gs.Perm r.fragments := by simpa [hfs] using hp.symm
    obtain ⟨r', hr'⟩ := h.registerAll_of_perm wellFormed_empty (by simpa using hperm)
    obtain ⟨h', hgs⟩ := wellFormed_empty.registerAll hr'
    refine ⟨r', hr', fun σ name props producer => ?_⟩
    have hperm' : r'.fragments.Perm r.fragments := by simpa [hgs] using hperm
    exact h.render_congr h' (fun n _ => h.find?_eq_of_perm h' hperm' n) props producer
  · intro fs f r' ht hr σ name props producer s html hs
    have h := wellFormed_entered fs
    obtain ⟨h', hfs⟩ := h.register hr
    refine h.render_of_find? h' ht (fun n g hg => ?_) hs
    rw [h.find?_eq_some_iff] at hg
    rw [h'.find?_eq_some_iff, hfs]
    exact ⟨List.mem_append_left _ hg.1, hg.2⟩

def note : Fragment where
  name := "note"
  body := .template ⟨"note", []⟩

theorem render_local_card :
    let text : Producer Unit := Run.ofExcept (.ok "x")
    let html := (entered [.badge, .card]).render "card" [] (some text)
    (entered [.badge, .card]).Agree (entered [.card, note, .badge]) "card" ∧
      html = (entered [.card, note, .badge]).render "card" [] (some text) ∧
      (∃ r, [Fragment.card, Fragment.badge].foldlM register {} = .ok r ∧
        html = r.render "card" [] (some text)) ∧
      (entered [.badge, .card, note]).render "card" [] (some text) () = html () := by
  intro text html
  obtain ⟨hagree, hperm, hmore⟩ := render_local
  have hcard : (entered [.badge, .card]).graph.lookup "card" = some ["badge"] := rfl
  have hbadge : (entered [.badge, .card]).graph.lookup "badge" = some [] := rfl
  have hreach : ∀ n, (entered [.badge, .card]).graph.Reaches "card" n → n = "card" ∨ n = "badge" := by
    intro n hn
    induction hn with
    | refl => exact .inl rfl
    | tail _ he ih =>
      obtain ⟨names, hnames, hmem⟩ := he
      obtain rfl | rfl := ih
      · rw [hcard] at hnames
        cases hnames
        exact .inr (List.mem_singleton.mp hmem)
      · rw [hbadge] at hnames
        cases hnames
        cases hmem
  have hfind : (entered [.badge, .card]).Agree (entered [.card, note, .badge]) "card" := by
    intro n hn
    obtain rfl | rfl := hreach n hn
    · rfl
    · rfl
  refine ⟨hfind, hagree _ _ "card" hfind Unit [] (some text), ?_, ?_⟩
  · have hr : [Fragment.badge, Fragment.card].foldlM register {} = .ok (entered [.badge, .card]) := rfl
    obtain ⟨r, hr', heq⟩ := hperm _ [.card, .badge] _ (.swap _ _ _) hr
    exact ⟨r, hr', heq Unit "card" [] (some text)⟩
  · have hfs : (entered [.badge, .card]).fragments = [.badge, .card] := rfl
    have hr : (entered [.badge, .card]).register note = .ok (entered [.badge, .card, note]) := rfl
    have hhtml : (html ()).result = .ok "<b>x</b>" := rfl
    refine hmore [.badge, .card] note _ ?_ hr Unit "card" [] (some text) () _ hhtml
    rw [hfs]
    simp [Fragment.badge, Fragment.card]

end StaticSite.Registry
