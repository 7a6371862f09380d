import Mathlib.Data.List.Forall2

namespace StaticSite

theorem exists_of_bind_eq_ok {x : Except ε α} {f : α → Except ε β} {b : β} (h : x >>= f = .ok b) :
    ∃ a, x = .ok a ∧ f a = .ok b := by
  cases x with
  | error e => cases h
  | ok a => exact ⟨a, rfl, h⟩

theorem bind_eq_ok_iff {x : Except ε α} {f : α → Except ε β} {b : β} :
    x >>= f = .ok b ↔ ∃ a, x = .ok a ∧ f a = .ok b := by
  refine ⟨exists_of_bind_eq_ok, ?_⟩
  rintro ⟨a, rfl, h⟩
  exact h

theorem exists_of_bind_eq_error {x : Except ε α} {f : α → Except ε β} {e : ε}
    (h : x >>= f = .error e) : x = .error e ∨ ∃ a, x = .ok a ∧ f a = .error e := by
  cases x with
  | error e' =>
    cases h
    exact .inl rfl
  | ok a => exact .inr ⟨a, rfl, h⟩

def errorOf? : Except ε α → Option ε
  | .ok _ => none
  | .error e => some e

theorem errorOf?_eq_some_iff {x : Except ε α} {e : ε} : errorOf? x = some e ↔ x = .error e := by
  cases x <;> simp [errorOf?]

theorem errorOf?_eq_none_iff {x : Except ε α} : errorOf? x = none ↔ ∃ a, x = .ok a := by
  cases x <;> simp [errorOf?]

theorem errorOf?_map (f : α → β) (x : Except ε α) : errorOf? (f <$> x) = errorOf? x := by
  cases x <;> rfl

theorem eq_ok_of_mapError {x : Except ε α} {f : ε → ε'} {a : α} (h : x.mapError f = .ok a) :
    x = .ok a := by
  cases x with
  | error e => cases h
  | ok b =>
    cases h
    rfl

theorem toOption_eq_some_iff {x : Except ε α} {a : α} : x.toOption = some a ↔ x = .ok a := by
  cases x <;> simp [Except.toOption]

theorem toOption_bind_congr {x y : Except ε α} {f : α → γ} {g : α → Except ε β} {k : β → δ}
    (hxy : x.toOption.map f = y.toOption.map f)
    (hg : ∀ a b, f a = f b → (g a).toOption.map k = (g b).toOption.map k) :
    (x >>= g).toOption.map k = (y >>= g).toOption.map k := by
  cases x with
  | error e =>
    cases y with
    | error e' => rfl
    | ok b => cases hxy
  | ok a =>
    cases y with
    | error e' => cases hxy
    | ok b => exact hg a b (Option.some.inj hxy)

theorem toOption_bind_map {x : Except ε α} {y : Except ε β} {f : β → α} {g : α → Except ε γ}
    {k : β → Except ε δ} {h : δ → γ} (hxy : x.toOption = y.toOption.map f)
    (hg : ∀ b, (g (f b)).toOption = (k b).toOption.map h) :
    (x >>= g).toOption = (y >>= k).toOption.map h := by
  cases y with
  | error e =>
    cases x with
    | error e' => rfl
    | ok a => cases hxy
  | ok b =>
    cases x with
    | error e => cases hxy
    | ok a =>
      cases hxy
      exact hg b

theorem forM_eq_ok_iff {f : α → Except ε PUnit} {as : List α} :
    as.forM f = .ok ⟨⟩ ↔ ∀ a ∈ as, f a = .ok ⟨⟩ := by
  induction as with
  | nil => exact ⟨nofun, fun _ => rfl⟩
  | cons a as ih =>
    rw [List.forall_mem_cons, ← ih]
    change (f a >>= fun _ => as.forM f) = _ ↔ _
    rw [bind_eq_ok_iff]
    exact ⟨fun ⟨_, ha, has⟩ => ⟨ha, has⟩, fun ⟨ha, has⟩ => ⟨_, ha, has⟩⟩

theorem forM_discard (f : α → Except ε β) (as : List α) :
    (as.forM fun a => do let _ ← f a) = (do let _ ← as.mapM f) := by
  induction as with
  | nil => rfl
  | cons a as ih =>
    rw [List.forM_eq_forM, List.forM_cons, List.mapM_cons, ← List.forM_eq_forM, ih]
    cases f a with
    | error e => rfl
    | ok b => cases as.mapM f <;> rfl

theorem forall₂_of_mapM_eq_ok {f : α → Except ε β} {as : List α} {bs : List β}
    (h : as.mapM f = .ok bs) : List.Forall₂ (fun a b => f a = .ok b) as bs := by
  induction as generalizing bs with
  | nil =>
    rw [List.mapM_nil] at h
    cases h
    exact .nil
  | cons a as ih =>
    rw [List.mapM_cons] at h
    obtain ⟨b, hb, h⟩ := exists_of_bind_eq_ok h
    obtain ⟨bs, hbs, h⟩ := exists_of_bind_eq_ok h
    cases h
    exact .cons hb (ih hbs)

theorem mapM_eq_ok_of_forall₂ {f : α → Except ε β} {as : List α} {bs : List β}
    (h : List.Forall₂ (fun a b => f a = .ok b) as bs) : as.mapM f = .ok bs := by
  induction h with
  | nil => rfl
  | cons hb _ ih =>
    rw [List.mapM_cons, hb, ih]
    rfl

theorem exists_forall₂_iff {R : α → β → Prop} {as : List α} :
    (∃ bs, List.Forall₂ R as bs) ↔ ∀ a ∈ as, ∃ b, R a b := by
  induction as with
  | nil => exact ⟨fun _ => nofun, fun _ => ⟨[], .nil⟩⟩
  | cons a as ih =>
    rw [List.forall_mem_cons, ← ih]
    constructor
    · rintro ⟨_, _ | ⟨hb, hbs⟩⟩
      exact ⟨⟨_, hb⟩, _, hbs⟩
    · rintro ⟨⟨b, hb⟩, bs, hbs⟩
      exact ⟨b :: bs, .cons hb hbs⟩

theorem exists_of_mapM_eq_error {f : α → Except ε β} {as : List α} {e : ε}
    (h : as.mapM f = .error e) :
    ∃ before a after, as = before ++ a :: after ∧ (∀ b ∈ before, ∃ c, f b = .ok c) ∧
      f a = .error e := by
  induction as with
  | nil => cases h
  | cons a as ih =>
    rw [List.mapM_cons] at h
    obtain ha | ⟨c, ha, h⟩ := exists_of_bind_eq_error h
    · exact ⟨[], a, as, rfl, nofun, ha⟩
    · obtain has | ⟨_, _, h⟩ := exists_of_bind_eq_error h
      · obtain ⟨before, b, after, rfl, hbefore, hb⟩ := ih has
        exact ⟨a :: before, b, after, rfl, List.forall_mem_cons.mpr ⟨⟨c, ha⟩, hbefore⟩, hb⟩
      · cases h

theorem mapM_eq_some_iff {f : α → Option β} {as : List α} {bs : List β} :
    as.mapM f = some bs ↔ List.Forall₂ (fun a b => f a = some b) as bs := by
  induction as generalizing bs with
  | nil => cases bs <;> simp
  | cons a as ih =>
    rw [List.mapM_cons]
    constructor
    · intro h
      obtain ⟨b, hb, h⟩ := Option.bind_eq_some_iff.mp h
      obtain ⟨bs', hbs, h⟩ := Option.bind_eq_some_iff.mp h
      cases h
      exact .cons hb (ih.mp hbs)
    · rintro (_ | ⟨hb, hbs⟩)
      exact Option.bind_eq_some_iff.mpr ⟨_, hb, Option.bind_eq_some_iff.mpr ⟨_, ih.mpr hbs, rfl⟩⟩

theorem map_eq_of_mapM_eq_ok {f : α → Except ε β} {as : List α} {bs : List β}
    {g : β → γ} {k : α → γ} (hg : ∀ a b, f a = .ok b → g b = k a) (h : as.mapM f = .ok bs) : bs.map g = as.map k := by
  have hall := forall₂_of_mapM_eq_ok h
  clear h
  induction hall with
  | nil => rfl
  | cons hab _ ih => rw [List.map_cons, List.map_cons, hg _ _ hab, ih]

theorem exists_of_mem_mapM {f : α → Except ε β} {as : List α} {bs : List β}
    (h : as.mapM f = .ok bs) {b : β} (hb : b ∈ bs) : ∃ a ∈ as, f a = .ok b := by
  have hall := forall₂_of_mapM_eq_ok h
  clear h
  induction hall with
  | nil => cases hb
  | cons hab _ ih =>
    obtain rfl | hb := List.mem_cons.mp hb
    · exact ⟨_, List.mem_cons_self, hab⟩
    · obtain ⟨a, ha, h⟩ := ih hb
      exact ⟨a, List.mem_cons_of_mem _ ha, h⟩

theorem exists_of_foldlM_error {α β ε : Type} {step : β → α → Except ε β} {e : ε} :
    ∀ {as : List α} {b : β}, as.foldlM step b = .error e → ∃ a ∈ as, ∃ b, step b a = .error e
  | a :: as, b, h => by
    rw [List.foldlM_cons] at h
    cases ha : step b a with
    | error e' => exact ⟨a, by simp, b, by simpa [ha, bind, Except.bind] using h⟩
    | ok b' =>
      obtain ⟨c, hc, hstep⟩ := exists_of_foldlM_error (by simpa [ha, bind, Except.bind] using h)
      exact ⟨c, List.mem_cons_of_mem a hc, hstep⟩

theorem of_foldlM_eq_ok {step : β → α → Except ε β} {as : List α} {b b' : β} {P : β → Prop}
    (hstep : ∀ a ∈ as, ∀ b b', P b → step b a = .ok b' → P b') (hb : P b)
    (h : as.foldlM step b = .ok b') : P b' := by
  induction as generalizing b with
  | nil =>
    cases h
    exact hb
  | cons a as ih =>
    rw [List.foldlM_cons] at h
    obtain ⟨c, hc, h⟩ := exists_of_bind_eq_ok h
    exact ih (fun a ha => hstep a (List.mem_cons_of_mem _ ha)) (hstep a (by simp) b c hb hc) h

end StaticSite
