import StaticSite.Build.Basic
import StaticSite.Proofs.Disk.Writes

namespace StaticSite

def Asset.copies (d : Disk) (source target : Path) : List (Path × ByteArray) :=
  (files d source).map fun f => (target.join f.1, f.2)

theorem Asset.copy_eq_ok {source target : Path} {n : Nat} {d d' : Disk}
    (h : copy source target d = (.ok n, d')) :
    n = (files d source).length ∧ Work.writeAll (copies d source target) d = (.ok (), d') := by
  obtain ⟨d₀, d₁, hget, h⟩ := Work.exists_of_bind_eq_ok h
  cases hget
  obtain ⟨_, d₂, hwrite, h⟩ := Work.exists_of_bind_eq_ok h
  cases h
  exact ⟨rfl, (congrFun (Work.writeAll_map _ _) d).trans hwrite⟩

namespace Config

def stylesheetPath (c : Config) : Path := c.output.join (.ofText c.stylesheet)

def assetTarget (c : Config) : Path := c.output.join (.ofText "assets")

def fontTarget (c : Config) : Path := c.output.join (.ofText "fonts")

def documentFile (c : Config) (doc : Path × String) : Path × ByteArray :=
  (c.output.join doc.1, doc.2.toUTF8)

/-- What a build that succeeds reads and makes. Each stage has the disk in which it ends. -/
structure Run (c : Config) (d d' : Disk) where
  cleaned : Disk
  clean_eq : c.clean d = (.ok (), cleaned)
  tokens : TokenSet
  tokens_eq : TokenSet.load cleaned c.tokens = .ok tokens
  declarations : String
  declarations_eq : c.tokenStyle.css tokens = .ok declarations
  declared : Disk
  declared_eq :
    Work.writeFile c.declarationsPath declarations.toUTF8 cleaned = (.ok (), declared)
  sheet : String
  sheet_eq : styleSheet declared c declarations = .ok sheet
  styled : Disk
  styled_eq : Work.writeFile c.stylesheetPath sheet.toUTF8 declared = (.ok (), styled)
  registry : Registry
  registry_eq : Registry.load styled c.fragments = .ok registry
  pages : List PageSource
  pages_eq : PageSource.loadAll styled c.pages = .ok pages
  documents : List (Path × String)
  race : Race
  documents_eq : c.shell.renderAll registry pages race = .ok documents
  paged : Disk
  paged_eq : Work.writeAll (documents.map c.documentFile) styled = (.ok (), paged)
  filled : Disk
  filled_eq : Work.writeAll (Asset.copies paged c.assets c.assetTarget) paged = (.ok (), filled)
  done_eq : Work.writeAll (Asset.copies filled c.fonts c.fontTarget) filled = (.ok (), d')

namespace Run

variable {c : Config} {d d' : Disk} (r : c.Run d d')

def report : BuildReport where
  tokens := r.tokens.size
  stylesheetBytes := r.sheet.utf8ByteSize
  fragments := r.registry.size
  pages := r.documents.length
  assets := (Asset.files r.paged c.assets).length
  fonts := (Asset.files r.filled c.fonts).length
  states := BuildState.idle.onwards

def copies : List (Path × ByteArray) :=
  Asset.copies r.paged c.assets c.assetTarget ++ Asset.copies r.filled c.fonts c.fontTarget

def outputs : List (Path × ByteArray) :=
  [(c.declarationsPath, r.declarations.toUTF8), (c.stylesheetPath, r.sheet.toUTF8)] ++
    (r.documents.map c.documentFile ++ r.copies)

theorem writeAll_outputs : Work.writeAll r.outputs r.cleaned = (.ok (), d') := by
  have hfirst : Work.writeAll [(c.declarationsPath, r.declarations.toUTF8),
      (c.stylesheetPath, r.sheet.toUTF8)] r.cleaned = (.ok (), r.styled) := by
    change (Work.writeFile _ _ >>= fun _ => Work.writeFile _ _ >>= fun _ => pure ()) _ = _
    rw [Work.bind_apply, r.declared_eq]
    simp only [Work.bind_apply, r.styled_eq]
    rfl
  exact Work.writeAll_append hfirst
    (Work.writeAll_append r.paged_eq (Work.writeAll_append r.filled_eq r.done_eq))

end Run

section Stages

variable {c : Config} {d d' : Disk} {race : Race}

theorem buildTokens_eq_ok {tokens : TokenSet} {css : String}
    (h : c.buildTokens d = (.ok (tokens, css), d')) :
    TokenSet.load d c.tokens = .ok tokens ∧ c.tokenStyle.css tokens = .ok css ∧
      Work.writeFile c.declarationsPath css.toUTF8 d = (.ok (), d') := by
  obtain ⟨tokens', htokens, h⟩ := Work.exists_of_ask_bind_eq_ok h
  obtain ⟨css', hcss, h⟩ := Work.exists_of_ask_bind_eq_ok (Work.eq_ok_of_mapError h)
  obtain ⟨_, d₁, hwrite, h⟩ := Work.exists_of_bind_eq_ok h
  cases h
  exact ⟨eq_ok_of_mapError htokens, eq_ok_of_mapError hcss, Work.eq_ok_of_mapError hwrite⟩

theorem buildStyles_eq_ok {declarations : String} {bytes : Nat}
    (h : c.buildStyles declarations d = (.ok bytes, d')) :
    ∃ css, styleSheet d c declarations = .ok css ∧ bytes = css.utf8ByteSize ∧
      Work.writeFile c.stylesheetPath css.toUTF8 d = (.ok (), d') := by
  obtain ⟨css, hcss, h⟩ := Work.exists_of_ask_bind_eq_ok (Work.eq_ok_of_mapError h)
  obtain ⟨_, d₁, hwrite, h⟩ := Work.exists_of_bind_eq_ok h
  cases h
  exact ⟨css, hcss, rfl, hwrite⟩

theorem writePages_eq_ok {r : Registry} {pages : List PageSource} {n : Nat}
    (h : c.writePages r pages race d = (.ok n, d')) :
    ∃ docs, c.shell.renderAll r pages race = .ok docs ∧ n = docs.length ∧
      Work.writeAll (docs.map c.documentFile) d = (.ok (), d') := by
  obtain ⟨docs, hdocs, h⟩ := Work.exists_of_ask_bind_eq_ok h
  obtain ⟨_, d₁, hwrite, h⟩ := Work.exists_of_bind_eq_ok (Work.eq_ok_of_mapError h)
  cases h
  exact ⟨docs, hdocs, rfl, (congrFun (Work.writeAll_map _ _) _).trans hwrite⟩

theorem buildPages_eq_ok {counts : Nat × Nat} (h : c.buildPages race d = (.ok counts, d')) :
    ∃ r pages docs, Registry.load d c.fragments = .ok r ∧
      PageSource.loadAll d c.pages = .ok pages ∧ c.shell.renderAll r pages race = .ok docs ∧
      counts = (r.size, docs.length) ∧ Work.writeAll (docs.map c.documentFile) d = (.ok (), d') := by
  obtain ⟨r, hr, h⟩ := Work.exists_of_ask_bind_eq_ok h
  obtain ⟨pages, hpages, h⟩ := Work.exists_of_ask_bind_eq_ok h
  obtain ⟨n, d₁, hn, h⟩ := Work.exists_of_bind_eq_ok h
  obtain ⟨docs, hdocs, rfl, hwrite⟩ := writePages_eq_ok (Work.eq_ok_of_mapError hn)
  cases h
  exact ⟨r, pages, docs, eq_ok_of_mapError hr, eq_ok_of_mapError hpages, hdocs, rfl, hwrite⟩

theorem copyAssets_eq_ok {counts : Nat × Nat} (h : c.copyAssets d = (.ok counts, d')) :
    ∃ d₁, counts = ((Asset.files d c.assets).length, (Asset.files d₁ c.fonts).length) ∧
      Work.writeAll (Asset.copies d c.assets c.assetTarget) d = (.ok (), d₁) ∧
      Work.writeAll (Asset.copies d₁ c.fonts c.fontTarget) d₁ = (.ok (), d') := by
  obtain ⟨assets, d₁, hassets, h⟩ := Work.exists_of_bind_eq_ok (Work.eq_ok_of_mapError h)
  obtain ⟨fonts, d₂, hfonts, h⟩ := Work.exists_of_bind_eq_ok h
  cases h
  obtain ⟨rfl, hassets'⟩ := Asset.copy_eq_ok hassets
  obtain ⟨rfl, hfonts'⟩ := Asset.copy_eq_ok hfonts
  exact ⟨d₁, rfl, hassets', hfonts'⟩

theorem exists_run_of_build {report : BuildReport} (h : c.build race d = (.ok report, d')) :
    ∃ r : c.Run d d', r.report = report := by
  obtain ⟨_, cleaned, hclean, h⟩ := Work.exists_of_bind_eq_ok h
  obtain ⟨⟨tokens, declarations⟩, declared, htokens, h⟩ := Work.exists_of_bind_eq_ok h
  obtain ⟨bytes, styled, hstyles, h⟩ := Work.exists_of_bind_eq_ok h
  obtain ⟨counts, paged, hpages, h⟩ := Work.exists_of_bind_eq_ok h
  obtain ⟨counts', last, hassets, h⟩ := Work.exists_of_bind_eq_ok h
  cases h
  obtain ⟨tokens_eq, declarations_eq, declared_eq⟩ :=
    buildTokens_eq_ok (Work.eq_ok_of_mapError htokens)
  obtain ⟨sheet, sheet_eq, rfl, styled_eq⟩ := buildStyles_eq_ok (Work.eq_ok_of_mapError hstyles)
  obtain ⟨registry, pages, documents, registry_eq, pages_eq, documents_eq, rfl, paged_eq⟩ :=
    buildPages_eq_ok (Work.eq_ok_of_mapError hpages)
  obtain ⟨filled, rfl, filled_eq, done_eq⟩ := copyAssets_eq_ok (Work.eq_ok_of_mapError hassets)
  have clean_eq := Work.eq_ok_of_mapError hclean
  exact ⟨{
    cleaned, clean_eq, tokens, tokens_eq, declarations, declarations_eq, declared, declared_eq
    sheet, sheet_eq, styled, styled_eq, registry, registry_eq, pages, pages_eq
    documents, race, documents_eq, paged, paged_eq, filled, filled_eq, done_eq }, rfl⟩

end Stages

end Config

end StaticSite
