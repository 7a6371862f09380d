import StaticSite.Build.Stage
import StaticSite.Proofs.Disk.Work
import StaticSite.Proofs.Page.Documents

namespace StaticSite

namespace PageSource

def Apart (q p : PageSource) : Prop := q.output.components ≠ p.output.components

theorem exists_of_resolve_eq_error {r : Registry} {p : PageSource} {e : PageError}
    (h : p.resolve r = .error e) :
    ∃ address cause, PageTree.resolve r [] p.decl.root = .error (address, cause) ∧
      e = .resolve p.relative address cause := by
  unfold resolve at h
  cases hroot : PageTree.resolve r [] p.decl.root with
  | ok t =>
    rw [hroot] at h
    cases h
  | error cause =>
    rw [hroot] at h
    cases h
    exact ⟨cause.1, cause.2, rfl, rfl⟩

end PageSource

theorem exists_of_checkOutputs_eq_error {seen pages : List PageSource} {e : PageError}
    (h : checkOutputs seen pages = .error e) :
    ∃ before p after, ∃ q ∈ seen ++ before, pages = before ++ p :: after ∧
      checkOutputs seen before = .ok () ∧ ¬ q.Apart p ∧
      e = .collision q.relative p.relative p.output := by
  induction pages generalizing seen with
  | nil => cases h
  | cons p ps ih =>
    rw [checkOutputs] at h
    split at h
    · next q hq =>
      cases h
      have hsame : q.output.components = p.output.components := by simpa using List.find?_some hq
      exact ⟨[], p, ps, q, by simpa using List.mem_of_find?_eq_some hq, rfl, rfl,
        fun hne => hne hsame, rfl⟩
    · next hnone =>
      obtain ⟨before, p', after, q, hq, rfl, hbefore, hsame, he⟩ := ih h
      refine ⟨p :: before, p', after, q, by simpa using hq, rfl, ?_, hsame, he⟩
      rw [checkOutputs, hnone]
      exact hbefore

theorem forall₂_zip_iff {P : α → β → Prop} {Q : α → β → γ → Prop} {as : List α} {cs : List γ} :
    (∃ bs, List.Forall₂ P as bs ∧ List.Forall₂ (fun x c => Q x.1 x.2 c) (as.zip bs) cs) ↔
      List.Forall₂ (fun a c => ∃ b, P a b ∧ Q a b c) as cs := by
  constructor
  · rintro ⟨bs, hbs, hcs⟩
    induction hbs generalizing cs with
    | nil =>
      cases hcs
      exact .nil
    | cons hb _ ih =>
      cases hcs with
      | cons hc hcs => exact .cons ⟨_, hb, hc⟩ (ih hcs)
  · intro h
    induction h with
    | nil => exact ⟨[], .nil, .nil⟩
    | cons hc _ ih =>
      obtain ⟨b, hb, hc⟩ := hc
      obtain ⟨bs, hbs, hcs⟩ := ih
      exact ⟨b :: bs, .cons hb hbs, .cons hc hcs⟩

namespace Shell

def renderPage (s : Shell) (r : Registry) (p : PageSource) : Except PageError (Path × String) := do
  s.render p (← p.resolve r)

theorem renderAll_eq_ok_iff {s : Shell} {r : Registry} {pages : List PageSource} {race : Race}
    {docs : List (Path × String)} :
    s.renderAll r pages race = .ok docs ↔
      pages.Pairwise PageSource.Apart ∧
        List.Forall₂ (fun p doc => s.renderPage r p = .ok doc) pages docs := by
  simp only [renderPage, bind_eq_ok_iff, ← forall₂_zip_iff]
  constructor
  · intro h
    obtain ⟨_, hcheck, h⟩ := exists_of_bind_eq_ok h
    obtain ⟨trees, htrees, h⟩ := exists_of_bind_eq_ok h
    exact ⟨(checkOutputs_eq_ok_iff.mp hcheck).2, trees, forall₂_of_mapM_eq_ok htrees,
      forall₂_of_mapM_eq_ok (Race.gather_map_eq_ok_iff.mp h)⟩
  · rintro ⟨hapart, trees, htrees, hdocs⟩
    have hcheck : checkOutputs [] pages = .ok () := checkOutputs_eq_ok_iff.mpr ⟨nofun, hapart⟩
    exact bind_eq_ok_iff.mpr ⟨(), hcheck, bind_eq_ok_iff.mpr ⟨trees, mapM_eq_ok_of_forall₂ htrees,
      Race.gather_map_eq_ok_iff.mpr (mapM_eq_ok_of_forall₂ hdocs)⟩⟩

/-- Why there are no documents: what is found first. Of the pages that do not render, any may be
told of, since none waits for another. -/
inductive Fault (r : Registry) (pages : List PageSource) : PageError → Prop
  | collision : pages = before ++ p :: after → before.Pairwise PageSource.Apart → q ∈ before →
      ¬ q.Apart p → Fault r pages (.collision q.relative p.relative p.output)
  | resolve : pages.Pairwise PageSource.Apart → pages = before ++ p :: after →
      (∀ q ∈ before, ∃ t, q.resolve r = .ok t) →
      PageTree.resolve r [] p.decl.root = .error (address, cause) →
      Fault r pages (.resolve p.relative address cause)
  | render : pages.Pairwise PageSource.Apart → (∀ q ∈ pages, ∃ t, q.resolve r = .ok t) →
      p ∈ pages → p.resolve r = .ok t → (t.render ()).result = .error cause →
      Fault r pages (.render p.relative cause)

theorem exists_of_render_eq_error {s : Shell} {r : Registry} {p : PageSource} {t : PageTree r}
    {e : PageError} (h : s.render p t = .error e) :
    ∃ cause, (t.render ()).result = .error cause ∧ e = .render p.relative cause := by
  unfold render at h
  split at h
  · cases h
  · next cause hcause =>
    cases h
    exact ⟨cause, hcause, rfl⟩

theorem fault_of_renderAll {s : Shell} {r : Registry} {pages : List PageSource} {race : Race}
    {e : PageError} (h : s.renderAll r pages race = .error e) : Fault r pages e := by
  obtain hcheck | ⟨_, hcheck, h⟩ := exists_of_bind_eq_error h
  · obtain ⟨before, p, after, q, hq, hpages, hbefore, hsame, rfl⟩ :=
      exists_of_checkOutputs_eq_error hcheck
    exact .collision hpages (checkOutputs_eq_ok_iff.mp hbefore).2 hq hsame
  have hapart : pages.Pairwise PageSource.Apart := (checkOutputs_eq_ok_iff.mp hcheck).2
  obtain hresolve | ⟨trees, htrees, h⟩ := exists_of_bind_eq_error h
  · obtain ⟨before, p, after, hpages, hbefore, hp⟩ := exists_of_mapM_eq_error hresolve
    obtain ⟨address, cause, hroot, rfl⟩ := PageSource.exists_of_resolve_eq_error hp
    exact .resolve hapart hpages hbefore hroot
  have hresolved := forall₂_of_mapM_eq_ok htrees
  obtain ⟨⟨p, t⟩, hmem, hrender⟩ := List.mem_map.mp (Race.gather_eq_error h)
  obtain ⟨cause, hcause, rfl⟩ := exists_of_render_eq_error hrender
  exact .render hapart (exists_forall₂_iff.mp ⟨trees, hresolved⟩) (List.of_mem_zip hmem).1
    (List.forall₂_zip hresolved hmem) hcause

/-- Whichever page fails to render, there is a race in which it is the one told of. -/
theorem exists_race_of_fault {s : Shell} {r : Registry} {pages : List PageSource} {page : Path}
    {cause : RenderError} (h : Fault r pages (.render page cause)) :
    ∃ race, s.renderAll r pages race = .error (.render page cause) := by
  cases h with
  | @render p t _ hapart hresolved hp ht hcause =>
    obtain ⟨trees, htrees⟩ := exists_forall₂_iff.mpr hresolved
    have hzip : p ∈ (pages.zip trees).map Prod.fst := by
      rwa [List.map_fst_zip htrees.length_eq.le]
    obtain ⟨⟨q, t'⟩, hmem, rfl : q = p⟩ := List.mem_map.mp hzip
    obtain rfl : t' = t := Except.ok.inj ((List.forall₂_zip htrees hmem).symm.trans ht)
    have hfails : s.render q t' = .error (.render q.relative cause) := by rw [render, hcause]
    obtain ⟨race, hrace⟩ := Race.exists_gather_eq_error
      (List.mem_map.mpr ⟨_, hmem, hfails⟩ : _ ∈ (pages.zip trees).map fun x => s.render x.1 x.2)
    refine ⟨race, ?_⟩
    have hcheck : checkOutputs [] pages = .ok () := checkOutputs_eq_ok_iff.mpr ⟨nofun, hapart⟩
    rw [renderAll, hcheck, mapM_eq_ok_of_forall₂ htrees]
    exact hrace

theorem writePages_eq_error {c : Config} {r : Registry} {pages : List PageSource} {race : Race}
    {e : PageError} (h : c.shell.renderAll r pages race = .error e) (d : Disk) :
    c.writePages r pages race d = (.error e, d) := by
  rw [Config.writePages, Work.bind_apply, Work.ask_apply, h]

/-- Documents are made for all pages or for none, each as if its page were the only one, and
nothing is written unless all are made. -/
theorem renderAll_pagewise (s : Shell) (r : Registry) (pages : List PageSource) (race race' : Race) :
    ((∃ docs, s.renderAll r pages race = .ok docs) ↔
      pages.Pairwise PageSource.Apart ∧ ∀ p ∈ pages, ∃ docs, s.renderAll r [p] race' = .ok docs) ∧
    (∀ docs, s.renderAll r pages race = .ok docs →
      List.Forall₂ (fun p doc => s.renderAll r [p] race' = .ok [doc]) pages docs) ∧
    ∀ e, s.renderAll r pages race = .error e →
      Fault r pages e ∧
        ∀ (c : Config) (d : Disk), c.shell = s → c.writePages r pages race d = (.error e, d) := by
  refine ⟨?_, fun docs hdocs => ?_, fun e he => ⟨fault_of_renderAll he, ?_⟩⟩
  · simp [renderAll_eq_ok_iff, exists_forall₂_iff]
  · refine (renderAll_eq_ok_iff.mp hdocs).2.imp fun p doc hdoc => ?_
    exact renderAll_eq_ok_iff.mpr ⟨List.pairwise_singleton _ _, .cons hdoc .nil⟩
  · rintro c d rfl
    exact writePages_eq_error he d

def plainPage : PageSource where
  relative := ⟨false, ["a.yaml"]⟩
  decl := { title := "A", root := { text := some "&" } }

def lostPage : PageSource where
  relative := ⟨false, ["b.yaml"]⟩
  decl := { title := "B", root := { fragment := some "mark" } }

theorem renderAll_pagewise_lost :
    let s : Shell := { project := "", lang := "en", stylesheet := "main.css" }
    let e : PageError := .resolve ⟨false, ["b.yaml"]⟩ [] (.unknown "mark" none)
    (∃ docs, s.renderAll {} [plainPage] = .ok docs) ∧
      s.renderAll {} [plainPage, lostPage] = .error e ∧ Fault {} [plainPage, lostPage] e ∧
      ∀ (c : Config) (d : Disk), c.shell = s →
        c.writePages {} [plainPage, lostPage] .inOrder d = (.error e, d) := by
  intro s e
  have hplain : s.renderAll {} [plainPage] =
      .ok [(⟨false, ["a.html"]⟩, s.document plainPage "&amp;")] := by decide +kernel
  have he : s.renderAll {} [plainPage, lostPage] = .error e := by decide +kernel
  have hpagewise := renderAll_pagewise s {} [plainPage, lostPage] .inOrder .inOrder
  exact ⟨⟨_, hplain⟩, he, hpagewise.2.2 e he⟩

end Shell

end StaticSite
