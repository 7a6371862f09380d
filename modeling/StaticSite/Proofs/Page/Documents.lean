import StaticSite.Page.Directory
import StaticSite.Proofs.Disk.Find
import StaticSite.Proofs.Path.Extension

namespace StaticSite

namespace PageSource

def Named (p : PageSource) : Prop :=
  (p.relative.extension?).isSome ∧ ∃ names, (∀ n ∈ names, IsFileName n) ∧ p.relative = .ofNames names

theorem relative_of_ofFile {dir : Path} {file : Path × ByteArray} {p : PageSource}
    (h : ofFile dir file = .ok p) : p.relative = file.1 ∧ (file.1.extension?).isSome := by
  unfold ofFile at h
  split at h
  · cases h
  · next format hformat =>
    obtain ⟨text, -, h⟩ := exists_of_bind_eq_ok h
    obtain ⟨decl, -, h⟩ := exists_of_bind_eq_ok h
    obtain ⟨ext, hext, -⟩ := Option.bind_eq_some_iff.mp hformat
    cases h
    exact ⟨rfl, hext ▸ rfl⟩

theorem named_of_mem_loadAll {d : Disk} (hd : d.files.WellFormed) {dir : Path}
    {pages : List PageSource} (h : loadAll d dir = .ok pages) {p : PageSource} (hp : p ∈ pages) :
    p.Named := by
  obtain ⟨file, hfile, hok⟩ := exists_of_mem_mapM h hp
  obtain ⟨hrelative, hext⟩ := relative_of_ofFile hok
  obtain ⟨f, hf, rfl⟩ := List.mem_map.mp (List.mem_of_mem_filter hfile)
  exact ⟨hrelative ▸ hext, f.1, Disk.names_of_mem_filesBelow hd hf, hrelative⟩

theorem Named.output_cases {p : PageSource} (hp : p.Named) :
    ∃ init, (∀ n ∈ init, IsFileName n) ∧
      (p.output = .ofNames (init ++ [".."]) ∨
        ∃ stem, IsFileName (stem ++ "." ++ "html") ∧
          p.output = .ofNames (init ++ [stem ++ "." ++ "html"])) := by
  obtain ⟨hext, names, hnames, h⟩ := hp
  rw [h] at hext
  rw [output, h]
  exact Path.withExtension_cases hnames hext (by decide) (by decide)

theorem Named.spelled_output {p : PageSource} (hp : p.Named) : p.output.Spelled := by
  have hspelled : ∀ {init : List String} {last : String}, (∀ n ∈ init, IsFileName n) →
      '/' ∉ last.toList → (Path.ofNames (init ++ [last])).Spelled := by
    intro init last hinit hlast s hs
    obtain hs | hs := List.mem_append.mp hs
    · exact (hinit s hs).no_slash
    · exact List.mem_singleton.mp hs ▸ hlast
  obtain ⟨init, hinit, hup | ⟨stem, hname, hdoc⟩⟩ := hp.output_cases
  · exact hup ▸ hspelled hinit (by decide)
  · exact hdoc ▸ hspelled hinit hname.no_slash

end PageSource

theorem checkOutputs_eq_ok_iff {before pages : List PageSource} :
    checkOutputs before pages = .ok () ↔
      (∀ q ∈ before, ∀ p ∈ pages, q.output.components ≠ p.output.components) ∧
        pages.Pairwise fun q p => q.output.components ≠ p.output.components := by
  induction pages generalizing before with
  | nil => simp [checkOutputs]
  | cons p ps ih =>
    rw [checkOutputs]
    split
    · next q hq =>
      have hsame : q.output.components = p.output.components := by simpa using List.find?_some hq
      refine ⟨nofun, fun h => ?_⟩
      exact absurd hsame (h.1 q (List.mem_of_find?_eq_some hq) p List.mem_cons_self)
    · next hnone =>
      have hp : ∀ q ∈ before, q.output.components ≠ p.output.components := by
        simpa using hnone
      rw [ih, List.pairwise_cons]
      simp only [List.mem_append, List.mem_singleton, List.forall_mem_cons, or_imp, forall_and,
        forall_eq, and_iff_right hp, and_assoc]

namespace Race

variable {race : Race}

theorem mem_failures {xs : List (Except ε α)} {e : ε} : e ∈ failures xs ↔ .error e ∈ xs := by
  rw [failures, List.mem_filterMap]
  constructor
  · rintro ⟨_ | _, hx, he⟩ <;> cases he
    exact hx
  · exact fun hx => ⟨_, hx, rfl⟩

theorem gather_eq_error {xs : List (Except ε α)} {e : ε} (h : race.gather xs = .error e) :
    .error e ∈ xs := by
  unfold gather at h
  split at h
  · obtain ⟨_, x, _, rfl, -, rfl⟩ := exists_of_mapM_eq_error h
    simp
  · next f fs hfailures =>
    exact mem_failures.mp (hfailures ▸ Except.error.inj h ▸ List.get_mem _ _)

theorem exists_gather_eq_error {xs : List (Except ε α)} {e : ε} (h : .error e ∈ xs) :
    ∃ race : Race, race.gather xs = .error e := by
  have he : e ∈ failures xs := mem_failures.mpr h
  unfold gather
  cases hfailures : failures xs with
  | nil => simp [hfailures] at he
  | cons f fs =>
    obtain ⟨i, rfl⟩ := List.mem_iff_get.mp (hfailures ▸ he)
    exact ⟨⟨fun n => Fin.ofNat (n + 1) i⟩, by simp⟩

theorem gather_map_eq_ok_iff {f : α → Except ε β} {as : List α} {bs : List β} :
    race.gather (as.map f) = .ok bs ↔ as.mapM f = .ok bs := by
  unfold gather
  split
  · rw [List.mapM_map]
    rfl
  · next e es hfailures =>
    refine ⟨nofun, fun h => ?_⟩
    have he : .error e ∈ as.map f := mem_failures.mp (hfailures ▸ List.mem_cons_self)
    obtain ⟨a, ha, he⟩ := List.mem_map.mp he
    obtain ⟨b, hb⟩ := exists_forall₂_iff.mp ⟨bs, forall₂_of_mapM_eq_ok h⟩ a ha
    cases he.symm.trans hb

end Race

namespace Shell

theorem eq_of_render {s : Shell} {r : Registry} {p : PageSource} {t : PageTree r}
    {doc : Path × String} (h : s.render p t = .ok doc) :
    ∃ html, (t.render ()).result = .ok html ∧ doc = (p.output, s.document p html) := by
  unfold render at h
  split at h
  · next html hhtml =>
    cases h
    exact ⟨html, hhtml, rfl⟩
  · cases h

theorem renderAll_mem {s : Shell} {r : Registry} {pages : List PageSource} {race : Race}
    {docs : List (Path × String)} (h : s.renderAll r pages race = .ok docs) {doc : Path × String}
    (hdoc : doc ∈ docs) :
    ∃ p ∈ pages, ∃ (t : PageTree r) (html : String), p.resolve r = .ok t ∧
      (t.render ()).result = .ok html ∧ doc = (p.output, s.document p html) := by
  unfold renderAll at h
  obtain ⟨-, -, h⟩ := exists_of_bind_eq_ok h
  obtain ⟨trees, htrees, h⟩ := exists_of_bind_eq_ok h
  obtain ⟨⟨p, t⟩, hmem, hrender⟩ := exists_of_mem_mapM (Race.gather_map_eq_ok_iff.mp h) hdoc
  have hresolve := List.forall₂_zip (forall₂_of_mapM_eq_ok htrees) hmem
  obtain ⟨html, hhtml, rfl⟩ := eq_of_render hrender
  exact ⟨p, (List.of_mem_zip hmem).1, t, html, hresolve, hhtml, rfl⟩

theorem map_fst_of_renderAll {s : Shell} {r : Registry} {pages : List PageSource} {race : Race}
    {docs : List (Path × String)} (h : s.renderAll r pages race = .ok docs) :
    docs.map Prod.fst = pages.map PageSource.output := by
  obtain ⟨_, -, h⟩ := exists_of_bind_eq_ok h
  obtain ⟨trees, htrees, h⟩ := exists_of_bind_eq_ok h
  have hlength := (forall₂_of_mapM_eq_ok htrees).length_eq
  have hfst : (pages.zip trees).map Prod.fst = pages := List.map_fst_zip hlength.le
  have hzip : pages.map PageSource.output =
      (pages.zip trees).map fun x => x.1.output := by
    conv_lhs => rw [← hfst, List.map_map]
    rfl
  rw [hzip]
  refine map_eq_of_mapM_eq_ok (fun x doc hdoc => ?_) (Race.gather_map_eq_ok_iff.mp h)
  obtain ⟨html, -, rfl⟩ := eq_of_render hdoc
  rfl

theorem pairwise_of_renderAll {s : Shell} {r : Registry} {pages : List PageSource} {race : Race}
    {docs : List (Path × String)} (h : s.renderAll r pages race = .ok docs) :
    docs.Pairwise fun a b => a.1.components ≠ b.1.components := by
  have hfst := map_fst_of_renderAll h
  obtain ⟨_, hcheck, -⟩ := exists_of_bind_eq_ok h
  have hpages := (checkOutputs_eq_ok_iff.mp hcheck).2
  have houtputs : (pages.map PageSource.output).Pairwise fun a b => a.components ≠ b.components :=
    List.pairwise_map.mpr hpages
  rw [← hfst, List.pairwise_map] at houtputs
  exact houtputs

end Shell

end StaticSite
