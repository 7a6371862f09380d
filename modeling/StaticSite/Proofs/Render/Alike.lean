import StaticSite.Proofs.Render.Run

namespace StaticSite.Run

/-- Both runs come to the same value in the same state, or both to errors of which `f` makes the
same. -/
def Alike (f : ε → γ) (x y : Run σ ε α) : Prop :=
  ∀ s, (x s).result.mapError f = (y s).result.mapError f ∧
    ∀ a, (x s).result = .ok a → (x s).state = (y s).state

section Laws

variable {f : ε → γ} {x y : Run σ ε α}

theorem Alike.refl (f : ε → γ) (x : Run σ ε α) : x.Alike f x := fun _ => ⟨rfl, fun _ _ => rfl⟩

theorem Alike.ends (h : x.Alike f y) (s : σ) :
    (∃ a, (x s).result = .ok a ∧ (y s).result = .ok a ∧ (x s).state = (y s).state) ∨
      ∃ e e', (x s).result = .error e ∧ (y s).result = .error e' ∧ f e = f e' := by
  obtain ⟨hresult, hstate⟩ := h s
  cases hx : (x s).result with
  | error e =>
    cases hy : (y s).result with
    | error e' =>
      rw [hx, hy] at hresult
      exact .inr ⟨e, e', rfl, rfl, Except.error.inj hresult⟩
    | ok b =>
      rw [hx, hy] at hresult
      cases hresult
  | ok a =>
    cases hy : (y s).result with
    | error e' =>
      rw [hx, hy] at hresult
      cases hresult
    | ok b =>
      rw [hx, hy] at hresult
      cases hresult
      exact .inl ⟨a, rfl, rfl, hstate a hx⟩

theorem alike_ofExcept {a b : Except ε α} (h : a.mapError f = b.mapError f) :
    (ofExcept a : Run σ ε α).Alike f (ofExcept b) := fun _ => ⟨h, fun _ _ => rfl⟩

theorem alike_fail {e e' : ε} (h : f e = f e') : (fail e : Run σ ε α).Alike f (fail e') :=
  fun _ => ⟨congrArg Except.error h, nofun⟩

theorem Alike.bind {g k : α → Run σ ε β} (h : x.Alike f y) (hg : ∀ a, (g a).Alike f (k a)) :
    (x >>= g).Alike f (y >>= k) := by
  intro s
  rw [bind_apply, bind_apply]
  obtain ⟨a, hx, hy, hstate⟩ | ⟨e, e', hx, hy, he⟩ := h.ends s
  · rw [hx, hy, hstate]
    exact hg a _
  · rw [hx, hy]
    exact ⟨congrArg Except.error he, nofun⟩

theorem Alike.mapError {f' : ε' → γ'} {g g' : ε → ε'} (h : x.Alike f y)
    (hg : ∀ e e', f e = f e' → f' (g e) = f' (g' e')) :
    (x.mapError g).Alike f' (y.mapError g') := by
  intro s
  change ((x s).result.mapError g).mapError f' = ((y s).result.mapError g').mapError f' ∧
    ∀ a, (x s).result.mapError g = .ok a → (x s).state = (y s).state
  obtain ⟨a, hx, hy, hstate⟩ | ⟨e, e', hx, hy, he⟩ := h.ends s
  · rw [hx, hy]
    exact ⟨rfl, fun _ _ => hstate⟩
  · rw [hx, hy]
    exact ⟨congrArg Except.error (hg e e' he), nofun⟩

theorem Alike.onSecond (h : x.Alike f y) : (x.onSecond : Run (τ × σ) ε α).Alike f y.onSecond :=
  fun s => ⟨(h s.2).1, fun a ha => congrArg (s.1, ·) ((h s.2).2 a ha)⟩

theorem Alike.nest {x y : Run (τ × σ) ε α} (h : x.Alike f y) (a : τ) :
    (x.nest a).Alike f (y.nest a) :=
  fun s => ⟨(h (a, s)).1, fun b hb => congrArg Prod.snd ((h (a, s)).2 b hb)⟩

theorem Alike.mapM {g k : β → Run σ ε α} {bs : List β} (h : ∀ b ∈ bs, (g b).Alike f (k b)) :
    (bs.mapM g).Alike f (bs.mapM k) := by
  induction bs with
  | nil => exact .refl f _
  | cons b bs ih =>
    obtain ⟨hb, hbs⟩ := List.forall_mem_cons.mp h
    rw [List.mapM_cons, List.mapM_cons]
    exact hb.bind fun a => (ih hbs).bind fun as => .refl f _

end Laws

theorem children_produced (p : Producer σ) (events : List SlotEvent) (t : σ) :
    Slot.children (some p) (⟨false, none, events⟩, t) =
      let r := p (⟨true, none, events⟩, t)
      ⟨r.result, ({ r.state.1 with content := some r.result }.note (.produced r.result), r.state.2),
        r.depth⟩ := rfl

theorem Alike.children {f : RenderError → γ} {p q : Producer σ} (h : p.Alike f q) :
    (Slot.children (some p)).Alike f (Slot.children (some q)) := by
  rintro ⟨⟨busy, content, events⟩, t⟩
  cases content with
  | some result => exact ⟨rfl, fun _ _ => rfl⟩
  | none =>
    cases busy with
    | true => exact ⟨rfl, fun _ _ => rfl⟩
    | false =>
      rw [children_produced, children_produced]
      refine ⟨(h _).1, fun a ha => ?_⟩
      -- A value that the slot keeps is the same on both sides; an error need not be.
      obtain ⟨b, hp, hq, hstate⟩ | ⟨e, e', hp, -⟩ := h.ends (⟨true, none, events⟩, t)
      · simp only [hp, hq, hstate]
      · exact absurd (hp.symm.trans ha) nofun

end StaticSite.Run
