import StaticSite.Render.Slot

/-! Laws of runs: how deep they go, what they keep, and when one may stand for another. -/

namespace StaticSite

def Ends (Q : α → Prop) (E : ε → Prop) : Except ε α → Prop
  | .ok a => Q a
  | .error e => E e

namespace Run

theorem bind_apply (x : Run σ ε α) (f : α → Run σ ε β) (s : σ) :
    (x >>= f) s = match (x s).result with
      | .error e => ⟨.error e, (x s).state, (x s).depth⟩
      | .ok a =>
        let r := f a (x s).state
        ⟨r.result, r.state, max (x s).depth r.depth⟩ := by
  cases h : x s with
  | mk result state depth => cases result <;> simp only [bind, h]

theorem pure_apply (a : α) (s : σ) : (pure a : Run σ ε α) s = ⟨.ok a, s, 0⟩ := rfl

instance : LawfulMonad (Run σ ε) :=
  LawfulMonad.mk' _
    (fun x => by
      funext s
      change (x >>= pure) s = x s
      rw [bind_apply]
      obtain ⟨_ | _, _, _⟩ := x s
      · rfl
      · simp [pure_apply])
    (fun a f => by
      funext s
      simp [bind_apply, pure_apply])
    (fun x f g => by
      funext s
      simp only [bind_apply]
      cases (x s).result with
      | error e => rfl
      | ok a =>
        simp only
        cases (f a (x s).state).result with
        | error e => rfl
        | ok b => simp [Nat.max_assoc])

theorem ofExcept_bind (a : α) (f : α → Run σ ε β) : (ofExcept (.ok a) >>= f) = f a := pure_bind a f

theorem mapError_bind (g : ε → ε') (x : Run σ ε α) (f : α → Run σ ε β) :
    (x >>= f).mapError g = x.mapError g >>= fun a => (f a).mapError g := by
  funext s
  simp only [mapError, bind_apply]
  cases (x s).result <;> rfl

theorem mapError_map (g : ε → ε') (f : α → β) (x : Run σ ε α) :
    (f <$> x).mapError g = f <$> x.mapError g := by
  rw [map_eq_pure_bind, map_eq_pure_bind, mapError_bind]
  rfl

def Within (d : Nat) (x : Run σ ε α) : Prop := ∀ s, (x s).depth ≤ d

theorem Within.mono {x : Run σ ε α} (h : x.Within d) (hd : d ≤ d') : x.Within d' :=
  fun s => Nat.le_trans (h s) hd

theorem within_pure (a : α) : (pure a : Run σ ε α).Within d := fun _ => Nat.zero_le d

theorem within_fail (e : ε) : (fail e : Run σ ε α).Within d := fun _ => Nat.zero_le d

theorem within_ofExcept (x : Except ε α) : (ofExcept x : Run σ ε α).Within d :=
  fun _ => Nat.zero_le d

theorem Within.bind {x : Run σ ε α} {f : α → Run σ ε β} (hx : x.Within d)
    (hf : ∀ a, (f a).Within d) : (x >>= f).Within d := by
  intro s
  rw [bind_apply]
  cases (x s).result with
  | error e => exact hx s
  | ok a => exact Nat.max_le.mpr ⟨hx s, hf a _⟩

theorem Within.mapError {x : Run σ ε α} (h : x.Within d) (f : ε → ε') :
    (x.mapError f).Within d := h

theorem Within.attempt {x : Run σ ε α} (h : x.Within d) :
    (x.attempt : Run σ ε' _).Within d := h

theorem Within.onSecond {x : Run σ ε α} (h : x.Within d) :
    (x.onSecond : Run (τ × σ) ε α).Within d := fun s => h s.2

theorem Within.nest {x : Run (τ × σ) ε α} (h : x.Within d) (a : τ) : (x.nest a).Within (d + 1) :=
  fun s => Nat.succ_le_succ (h (a, s))

theorem Within.mapM {f : α → Run σ ε β} (h : ∀ a, (f a).Within d) (as : List α) :
    (as.mapM f).Within d := by
  induction as with
  | nil => exact within_pure []
  | cons a as ih =>
    rw [List.mapM_cons]
    exact (h a).bind fun b => ih.bind fun bs => within_pure (b :: bs)

theorem within_children {producer : Option (Producer σ)} (h : ∀ p ∈ producer, p.Within d) :
    (Slot.children producer).Within d := by
  rintro ⟨slot, s⟩
  obtain ⟨busy, content, events⟩ := slot
  cases content with
  | some result => exact Nat.zero_le d
  | none =>
    cases producer with
    | none => exact Nat.zero_le d
    | some p =>
      cases busy with
      | true => exact Nat.zero_le d
      | false => exact h p rfl _

/-- From a state in `I`, a run comes to one in `I`, with a value in `Q` or an error in `E`. -/
def Meets (I : σ → Prop) (Q : α → Prop) (E : ε → Prop) (x : Run σ ε α) : Prop :=
  ∀ s, I s → I (x s).state ∧ Ends Q E (x s).result

theorem meets_pure {I : σ → Prop} {Q : α → Prop} {E : ε → Prop} {a : α} (h : Q a) :
    (pure a : Run σ ε α).Meets I Q E := fun _ hs => ⟨hs, h⟩

theorem meets_ofExcept {I : σ → Prop} {Q : α → Prop} {E : ε → Prop} {x : Except ε α}
    (h : Ends Q E x) : (ofExcept x : Run σ ε α).Meets I Q E := fun _ hs => ⟨hs, h⟩

theorem meets_fail {I : σ → Prop} {Q : α → Prop} {E : ε → Prop} {e : ε} (h : E e) :
    (fail e : Run σ ε α).Meets I Q E := fun _ hs => ⟨hs, h⟩

theorem Meets.bind {I : σ → Prop} {P : α → Prop} {Q : β → Prop} {E : ε → Prop} {x : Run σ ε α}
    {f : α → Run σ ε β} (hx : x.Meets I P E) (hf : ∀ a, P a → (f a).Meets I Q E) :
    (x >>= f).Meets I Q E := by
  intro s hs
  rw [bind_apply]
  obtain ⟨hstate, hend⟩ := hx s hs
  cases hr : (x s).result with
  | error e =>
    rw [hr] at hend
    exact ⟨hstate, hend⟩
  | ok a =>
    rw [hr] at hend
    exact hf a hend _ hstate

theorem Meets.mapError {I : σ → Prop} {Q : α → Prop} {E : ε → Prop} {E' : ε' → Prop}
    {x : Run σ ε α} (h : x.Meets I Q E) {f : ε → ε'} (hf : ∀ e, E e → E' (f e)) :
    (x.mapError f).Meets I Q E' := by
  intro s hs
  obtain ⟨hstate, hend⟩ := h s hs
  refine ⟨hstate, ?_⟩
  change Ends Q E' ((x s).result.mapError f)
  cases hr : (x s).result with
  | error e =>
    rw [hr] at hend
    exact hf e hend
  | ok a =>
    rw [hr] at hend
    exact hend

theorem Meets.mapM {I : σ → Prop} {Q : β → Prop} {E : ε → Prop} {f : α → Run σ ε β}
    (h : ∀ a, (f a).Meets I Q E) (as : List α) :
    (as.mapM f).Meets I (fun bs => ∀ b ∈ bs, Q b) E := by
  induction as with
  | nil => exact meets_pure (by simp)
  | cons a as ih =>
    rw [List.mapM_cons]
    refine (h a).bind fun b hb => ih.bind fun bs hbs => meets_pure ?_
    simpa using ⟨hb, hbs⟩

def SlotMeets (Q : String → Prop) (E : RenderError → Prop) (I : σ → Prop) (x : Slot × σ) : Prop :=
  (∀ result, x.1.content = some result → Ends Q E result) ∧ I x.2

theorem Meets.onSecond {I : σ → Prop} {P : α → Prop} {E : ε → Prop} {Q : String → Prop}
    {F : RenderError → Prop} {x : Run σ ε α} (h : x.Meets I P E) :
    (x.onSecond : Run (Slot × σ) ε α).Meets (SlotMeets Q F I) P E := by
  rintro ⟨slot, s⟩ ⟨hslot, hs⟩
  exact ⟨⟨hslot, (h s hs).1⟩, (h s hs).2⟩

theorem Meets.nest {I : σ → Prop} {P : α → Prop} {E : ε → Prop} {Q : String → Prop}
    {F : RenderError → Prop} {x : Run (Slot × σ) ε α} (h : x.Meets (SlotMeets Q F I) P E) :
    (x.nest {}).Meets I P E := by
  intro s hs
  obtain ⟨hstate, hend⟩ := h ({}, s) ⟨nofun, hs⟩
  exact ⟨hstate.2, hend⟩

theorem meets_children {I : σ → Prop} {Q : String → Prop} {E : RenderError → Prop}
    {producer : Option (Producer σ)} (hnil : Q "")
    (h : ∀ p ∈ producer, p.Meets (SlotMeets Q E I) Q E) :
    (Slot.children producer).Meets (SlotMeets Q E I) Q E := by
  rintro ⟨⟨busy, content, events⟩, s⟩ ⟨hslot, hs⟩
  cases content with
  | some result => exact ⟨⟨hslot, hs⟩, hslot result rfl⟩
  | none =>
    cases producer with
    | none => exact ⟨⟨hslot, hs⟩, hnil⟩
    | some p =>
      cases busy with
      | true => exact ⟨⟨hslot, hs⟩, hnil⟩
      | false =>
        obtain ⟨⟨-, hs'⟩, hend⟩ := h p rfl (⟨true, none, events⟩, s) ⟨hslot, hs⟩
        refine ⟨⟨?_, hs'⟩, hend⟩
        intro result hresult
        cases hresult
        exact hend

structure Congruence where
  Rel : ∀ {σ ε α : Type}, Run σ ε α → Run σ ε α → Prop
  refl : ∀ {σ ε α : Type} (x : Run σ ε α), Rel x x
  bind : ∀ {σ ε α β : Type} {x y : Run σ ε α} {f g : α → Run σ ε β},
    Rel x y → (∀ a, Rel (f a) (g a)) → Rel (x >>= f) (y >>= g)
  mapError : ∀ {σ ε ε' α : Type} {x y : Run σ ε α} (f : ε → ε'),
    Rel x y → Rel (x.mapError f) (y.mapError f)
  onSecond : ∀ {σ τ ε α : Type} {x y : Run σ ε α},
    Rel x y → Rel (x.onSecond : Run (τ × σ) ε α) y.onSecond
  nest : ∀ {σ τ ε α : Type} {x y : Run (τ × σ) ε α} (a : τ), Rel x y → Rel (x.nest a) (y.nest a)
  children : ∀ {σ : Type} {p q : Producer σ},
    Rel p q → Rel (Slot.children (some p)) (Slot.children (some q))

theorem Congruence.mapM (c : Congruence) {f g : α → Run σ ε β} (h : ∀ a, c.Rel (f a) (g a))
    (as : List α) : c.Rel (as.mapM f) (as.mapM g) := by
  induction as with
  | nil => exact c.refl _
  | cons a as ih =>
    simp only [List.mapM_cons]
    exact c.bind (h a) fun b => c.bind ih fun bs => c.refl _

def Congruence.eq : Congruence where
  Rel := Eq
  refl _ := rfl
  bind hx hf := by rw [hx, funext hf]
  mapError f h := by rw [h]
  onSecond h := by rw [h]
  nest a h := by rw [h]
  children h := by rw [h]

def Below (x y : Run σ ε α) : Prop := ∀ s a, (x s).result = .ok a → y s = x s

theorem Below.bind {x y : Run σ ε α} {f g : α → Run σ ε β} (hx : x.Below y)
    (hf : ∀ a, (f a).Below (g a)) : (x >>= f).Below (y >>= g) := by
  intro s b hb
  rw [bind_apply] at hb ⊢
  rw [bind_apply]
  cases hr : (x s).result with
  | error e => simp [hr] at hb
  | ok a =>
    simp only [hr] at hb ⊢
    rw [hx s a hr, hr]
    simp only
    rw [hf a _ b hb]

theorem Below.mapError {x y : Run σ ε α} (f : ε → ε') (h : x.Below y) :
    (x.mapError f).Below (y.mapError f) := by
  intro s a ha
  cases hr : (x s).result with
  | error e =>
    change (x s).result.mapError f = .ok a at ha
    rw [hr] at ha
    cases ha
  | ok b => simp [Run.mapError, h s b hr]

theorem Below.children {p q : Producer σ} (h : p.Below q) :
    (Slot.children (some p)).Below (Slot.children (some q)) := by
  rintro ⟨⟨busy, content, events⟩, s⟩ a ha
  cases content with
  | some result => rfl
  | none =>
    cases busy with
    | true => rfl
    | false =>
      have hp := h (⟨true, none, events⟩, s) a ha
      simp [Slot.children, hp]

def Congruence.below : Congruence where
  Rel := Below
  refl _ _ _ _ := rfl
  bind := Below.bind
  mapError := Below.mapError
  onSecond h s a ha := by simp [Run.onSecond, h s.2 a ha]
  nest t h s a ha := by simp [Run.nest, h (t, s) a ha]
  children := Below.children

end Run

end StaticSite
