import StaticSite.Proofs.Build.Filled
import StaticSite.Proofs.Page.Pagewise

namespace StaticSite

theorem Race.gather_cases (race race' : Race) (xs : List (Except ε α)) :
    race'.gather xs = race.gather xs ∨ ∃ e e', race.gather xs = .error e ∧
      race'.gather xs = .error e' ∧ .error e ∈ xs ∧ .error e' ∈ xs := by
  cases hfailures : failures xs with
  | nil => exact .inl (by rw [gather, gather, hfailures])
  | cons f fs =>
    have htold (race : Race) :
        race.gather xs = .error ((f :: fs).get (race.first fs.length)) := by
      rw [gather, hfailures]
    exact .inr ⟨_, _, htold race, htold race', gather_eq_error (htold race),
      gather_eq_error (htold race')⟩

theorem Shell.renderAll_cases (s : Shell) (r : Registry) (pages : List PageSource)
    (race race' : Race) :
    s.renderAll r pages race' = s.renderAll r pages race ∨ ∃ page cause page' cause',
      s.renderAll r pages race = .error (.render page cause) ∧
        s.renderAll r pages race' = .error (.render page' cause') := by
  rw [renderAll, renderAll]
  cases checkOutputs [] pages with
  | error e => exact .inl rfl
  | ok _ =>
    cases pages.mapM (PageSource.resolve r) with
    | error e => exact .inl rfl
    | ok trees =>
      obtain h | ⟨e, e', he, he', hmem, hmem'⟩ :=
        race.gather_cases race' ((pages.zip trees).map fun x => s.render x.1 x.2)
      · exact .inl h
      · obtain ⟨⟨p, t⟩, -, hp⟩ := List.mem_map.mp hmem
        obtain ⟨⟨p', t'⟩, -, hp'⟩ := List.mem_map.mp hmem'
        obtain ⟨cause, -, rfl⟩ := exists_of_render_eq_error hp
        obtain ⟨cause', -, rfl⟩ := exists_of_render_eq_error hp'
        exact .inr ⟨_, cause, _, cause', he, he'⟩

namespace Work

def SameOr (P : ε → Prop) (x y : Except ε α × Disk) : Prop :=
  y = x ∨ ∃ e e', x.1 = .error e ∧ y.1 = .error e' ∧ P e ∧ P e'

variable {P : ε → Prop} {Q : ε' → Prop} {x y : Work ε α} {f g : α → Work ε β} {d : Disk}

theorem SameOr.bind (h : SameOr P (x d) (y d)) (f : α → Work ε β) :
    SameOr P ((x >>= f) d) ((y >>= f) d) := by
  rw [bind_apply, bind_apply]
  obtain h | ⟨e, e', hx, hy, he, he'⟩ := h
  · exact .inl (by rw [h])
  · cases hxd : x d with
    | mk r d₁ =>
      cases hyd : y d with
      | mk r' d₂ =>
        rw [hxd] at hx
        rw [hyd] at hy
        cases hx
        cases hy
        exact .inr ⟨e, e', rfl, rfl, he, he'⟩

theorem sameOr_bind (h : ∀ a d', x d = (.ok a, d') → SameOr P (f a d') (g a d')) :
    SameOr P ((x >>= f) d) ((x >>= g) d) := by
  rw [bind_apply, bind_apply]
  cases hx : x d with
  | mk r d' =>
    cases r with
    | error e => exact .inl rfl
    | ok a => exact h a d' hx

theorem SameOr.mapError {k : ε → ε'} (h : SameOr P (x d) (y d)) (hk : ∀ e, P e → Q (k e)) :
    SameOr Q (Work.mapError k x d) (Work.mapError k y d) := by
  rw [Work.mapError, Work.mapError]
  obtain h | ⟨e, e', hx, hy, he, he'⟩ := h
  · exact .inl (by rw [h])
  · exact .inr ⟨k e, k e', congrArg (Except.mapError k) hx, congrArg (Except.mapError k) hy, hk e he,
      hk e' he'⟩

end Work

namespace Config

/-- The error of one of the pages that a build comes to render. -/
inductive FailsAtPage (c : Config) (d : Disk) : StageError → Prop
  | page (cleaned : c.clean d = (.ok (), d₁)) (declared : c.buildTokens d₁ = (.ok (ts, css), d₂))
      (styled : c.buildStyles css d₂ = (.ok bytes, d₃))
      (registry : Registry.load d₃ c.fragments = .ok r)
      (pages : PageSource.loadAll d₃ c.pages = .ok ps)
      (fault : Shell.Fault r ps (.render page cause)) :
      c.FailsAtPage d ⟨.pages, .pages (.render page cause)⟩

theorem writePages_race (c : Config) (r : Registry) (pages : List PageSource) (race race' : Race)
    (d : Disk) :
    Work.SameOr (fun e => ∃ page cause, e = .render page cause ∧ Shell.Fault r pages e)
      (c.writePages r pages race d) (c.writePages r pages race' d) := by
  obtain h | ⟨page, cause, page', cause', he, he'⟩ := c.shell.renderAll_cases r pages race race'
  · exact .inl (by rw [writePages, writePages, h])
  · rw [Shell.writePages_eq_error he, Shell.writePages_eq_error he']
    exact .inr ⟨_, _, rfl, rfl, ⟨page, cause, rfl, Shell.fault_of_renderAll he⟩,
      page', cause', rfl, Shell.fault_of_renderAll he'⟩

theorem build_race (c : Config) (race race' : Race) (d : Disk) :
    Work.SameOr (c.FailsAtPage d) (c.build race d) (c.build race' d) := by
  refine Work.sameOr_bind fun _ d₁ hclean => ?_
  refine Work.sameOr_bind fun (tokens, css) d₂ htokens => ?_
  refine Work.sameOr_bind fun bytes d₃ hstyles => ?_
  have hpages : Work.SameOr (fun e => c.FailsAtPage d ⟨.pages, e⟩) (c.buildPages race d₃)
      (c.buildPages race' d₃) := by
    refine Work.sameOr_bind fun r d₄ hr => ?_
    refine Work.sameOr_bind fun ps d₅ hps => ?_
    rw [Work.ask_apply] at hr hps
    obtain ⟨hregistry, rfl⟩ := Prod.mk.inj hr
    obtain ⟨hpages, rfl⟩ := Prod.mk.inj hps
    refine (Work.SameOr.mapError (c.writePages_race r ps race race' _) ?_).bind _
    rintro _ ⟨page, cause, rfl, hfault⟩
    exact .page (Work.eq_ok_of_mapError hclean) (Work.eq_ok_of_mapError htokens)
      (Work.eq_ok_of_mapError hstyles) (eq_ok_of_mapError hregistry) (eq_ok_of_mapError hpages) hfault
  exact (Work.SameOr.mapError hpages fun _ he => he).bind _

end Config

end StaticSite
