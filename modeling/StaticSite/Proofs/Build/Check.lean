import StaticSite.Build.Check
import StaticSite.Proofs.Build.Filled
import StaticSite.Proofs.Disk.Beside
import StaticSite.Proofs.Disk.Folder

namespace StaticSite

theorem PageSource.check_eq (r : Registry) (pages : List PageSource) :
    check r pages = (do
      checkOutputs [] pages
      let _ ← pages.mapM (PageSource.resolve r)) := by
  rw [check, forM_discard]

theorem Shell.renderAll_of_check {s : Shell} {r : Registry} {pages : List PageSource} {race : Race}
    {e : PageError} (h : PageSource.check r pages = .error e) : s.renderAll r pages race = .error e := by
  rw [PageSource.check_eq] at h
  rw [renderAll]
  cases hplaces : checkOutputs [] pages with
  | error e' =>
    rw [hplaces] at h
    exact congrArg Except.error (Except.error.inj h)
  | ok u =>
    rw [hplaces] at h
    cases htrees : pages.mapM (PageSource.resolve r) with
    | error e' =>
      rw [htrees] at h
      exact congrArg Except.error (Except.error.inj h)
    | ok trees =>
      rw [htrees] at h
      cases h

theorem Shell.check_of_renderAll {s : Shell} {r : Registry} {pages : List PageSource} {race : Race}
    {docs : List (Path × String)} (h : s.renderAll r pages race = .ok docs) :
    PageSource.check r pages = .ok () := by
  cases hcheck : PageSource.check r pages with
  | error e =>
    rw [renderAll_of_check hcheck] at h
    cases h
  | ok u => rfl

namespace Work

variable {x : Work ε α} {f : α → Work ε β} {d : Disk}

theorem bind_of_eq_ok {a : α} {d' : Disk} (h : x d = (.ok a, d')) : (x >>= f) d = f a d' := by
  rw [bind_apply, h]

theorem bind_fst_of_error {e : ε} (h : (x d).1 = .error e) : ((x >>= f) d).1 = .error e := by
  rw [bind_apply]
  cases hx : x d with
  | mk r d' =>
    rw [hx] at h
    obtain rfl : r = .error e := h
    rfl

end Work

namespace Config

variable {c : Config} {race : Race} {d d' : Disk} {e : BuildError}

def readTokens (c : Config) (d : Disk) : Except BuildError (TokenSet × String) := do
  let tokens ← (TokenSet.load d c.tokens).mapError .load
  let css ← (c.tokenStyle.css tokens).mapError fun f => BuildError.tokens (.value f)
  return (tokens, css)

def readPages (c : Config) (d : Disk) : Except BuildError (Registry × List PageSource) := do
  let r ← (Registry.load d c.fragments).mapError .fragment
  let pages ← (PageSource.loadAll d c.pages).mapError fun e => BuildError.pages (.load e)
  (PageSource.check r pages).mapError .pages
  return (r, pages)

theorem check_eq (c : Config) (d : Disk) : c.check d = do
    let (tokens, _) ← c.readTokens d
    let (r, pages) ← c.readPages d
    return {
      tokens := tokens.size, fragments := r.size, pages := pages.length
      warnings := r.tierWarnings } := by
  unfold check readTokens readPages
  cases TokenSet.load d c.tokens with
  | error e => rfl
  | ok tokens =>
    simp only [Except.mapError, bind, Except.bind]
    cases c.tokenStyle.css tokens with
    | error e => rfl
    | ok css =>
      simp only [pure, Except.pure]
      cases Registry.load d c.fragments with
      | error e => rfl
      | ok r =>
        simp only
        cases PageSource.loadAll d c.pages with
        | error e => rfl
        | ok pages =>
          simp only
          cases PageSource.check r pages <;> rfl

theorem buildTokens_of_error (h : c.readTokens d = .error e) : (c.buildTokens d).1 = .error e := by
  rw [buildTokens, Work.bind_apply, Work.ask_apply]
  unfold readTokens at h
  cases hload : TokenSet.load d c.tokens with
  | error e' =>
    rw [hload] at h
    exact congrArg Except.error (Except.error.inj h)
  | ok tokens =>
    rw [hload] at h
    simp only [Except.mapError, bind, Except.bind] at h
    simp only [Except.mapError, Work.mapError, Work.bind_apply, Work.ask_apply]
    cases hcss : c.tokenStyle.css tokens with
    | error f =>
      rw [hcss] at h
      exact congrArg Except.error (Except.error.inj h)
    | ok css =>
      rw [hcss] at h
      cases h

theorem buildTokens_of_ok {tokens : TokenSet} {css : String} (h : c.readTokens d = .ok (tokens, css))
    (hwrite : Work.writeFile c.declarationsPath css.toUTF8 d = (.ok (), d')) :
    c.buildTokens d = (.ok (tokens, css), d') := by
  obtain ⟨tokens', htokens, h⟩ := exists_of_bind_eq_ok h
  obtain ⟨css', hcss, h⟩ := exists_of_bind_eq_ok h
  cases h
  have hcss := eq_ok_of_mapError hcss
  rw [buildTokens, Work.bind_apply, Work.ask_apply, htokens]
  simp only [Work.mapError, Work.bind_apply, Work.ask_apply, hcss, Except.mapError, hwrite,
    Work.pure_apply]

theorem buildPages_of_error (h : c.readPages d = .error e) : (c.buildPages race d).1 = .error e := by
  rw [buildPages, Work.bind_apply, Work.ask_apply]
  unfold readPages at h
  cases hr : (Registry.load d c.fragments).mapError BuildError.fragment with
  | error e' =>
    rw [hr] at h
    exact congrArg Except.error (Except.error.inj h)
  | ok r =>
    rw [hr] at h
    simp only [Work.bind_apply, Work.ask_apply]
    cases hpages : (PageSource.loadAll d c.pages).mapError fun e => BuildError.pages (.load e) with
    | error e' =>
      simp only [hpages, bind, Except.bind] at h
      exact congrArg Except.error (Except.error.inj h)
    | ok pages =>
      simp only [hpages, bind, Except.bind] at h
      cases hcheck : PageSource.check r pages with
      | error e' =>
        simp only [hcheck, Except.mapError, Except.error.injEq] at h
        simp only [Work.mapError, writePages, Work.bind_apply, Work.ask_apply,
          Shell.renderAll_of_check hcheck, Except.mapError, h]
      | ok u =>
        simp only [hcheck, Except.mapError] at h
        cases h

/-- No path by which a check reads, nor one to the root, the output directory or the style sheet in it,
ever leads up. -/
structure Straight (c : Config) : Prop where
  root : c.root.Straight
  tokens : c.paths.tokens.Straight
  fragments : ∀ p ∈ c.paths.fragments, p.Straight
  pages : c.paths.pages.Straight
  output : c.paths.output.Straight
  sheet : (Path.ofText c.stylesheet).Straight

theorem Straight.plain (h : c.Straight) (hspelled : c.output.Spelled) : c.Plain :=
  ⟨hspelled, h.root.join h.output, h.sheet⟩

section Cleaned

variable {out : Place} (hstraight : c.Straight) (hout : c.OutputAt d.cwd out)
include hstraight hout

theorem readTokens_of_beside (h : Disk.Beside out d d') :
    c.readTokens d' = c.readTokens d ∨
      c.readTokens d = .error (.load (.disk .notFound)) ∧
        ∃ x, (x = .isDirectory ∨ x = .nameTooLong) ∧
          c.readTokens d' = .error (.load (.disk x)) ∧
          ∃ place q, c.tokens.normalize? d.cwd = some place ∧ q <+: place ∧ q <+: out ∧
            d.kind? q = none := by
  have htokens : c.tokens.Straight := hstraight.root.join hstraight.tokens
  obtain ⟨place, hplace, habove⟩ := hout.tokens
  obtain hsame | huncovers := h.read htokens hplace habove
  · exact .inl (by rw [readTokens, readTokens, TokenSet.load_congr hsame])
  · cases hformat : DataFormat.ofPath? c.tokens with
    | none => exact .inl (by simp only [readTokens, TokenSet.load, hformat])
    | some format =>
      have hread : ∀ {e : Disk} {x : DiskError}, e.read c.tokens = .error x →
          c.readTokens e = .error (.load (.disk x)) := by
        intro e x hx
        simp [readTokens, TokenSet.load, hformat, Disk.readText, hx, Except.mapError, bind,
          Except.bind]
      obtain ⟨q, hq, hqout, hnone, -⟩ := huncovers.made
      refine .inr ⟨hread huncovers.before, ?_⟩
      obtain hafter | hafter := huncovers.after
      · exact ⟨_, .inl rfl, hread hafter, place, q, hplace, hq, hqout, hnone⟩
      · exact ⟨_, .inr rfl, hread hafter, place, q, hplace, hq, hqout, hnone⟩

theorem readPages_of_beside (hd : d.files.WellFormed) (hd' : d'.files.WellFormed)
    (h : Disk.Beside out d d') : c.readPages d' = c.readPages d := by
  have hbelow : ∀ p ∈ c.sources, p.Straight → d'.filesBelow p = d.filesBelow p := by
    intro p hp hup
    obtain ⟨place, hplace, habove, hbeside⟩ := hout.source p hp
    exact h.filesBelow_eq hd hd' hup hplace habove hbeside
  have hfragments : ∀ dir ∈ c.fragments, d'.filesBelow dir = d.filesBelow dir := by
    intro dir hdir
    obtain ⟨p, hp, rfl⟩ := List.mem_map.mp hdir
    exact hbelow _ (by simp [sources, hdir]) (hstraight.root.join (hstraight.fragments p hp))
  have hpages := hbelow c.pages (by simp [sources]) (hstraight.root.join hstraight.pages)
  rw [readPages, readPages, Registry.load_congr hfragments, PageSource.loadAll_congr hpages]

end Cleaned

theorem Cleaned.beside {out : Place} (h : c.Cleaned out d d') : Disk.Beside out d d' :=
  ⟨h.cwd_eq, h.paved⟩

theorem Cleaned.exists_writeFile {out : Place} (h : c.Cleaned out d d') (hp : c.output.Straight)
    (content : ByteArray) : ∃ e, Work.writeFile c.declarationsPath content d' = (.ok (), e) := by
  obtain ⟨start, hstart, hwalk⟩ := exists_of_bind_eq_ok h.found
  obtain ⟨hplace, hshort, -⟩ := (Disk.walk_eq_ok_iff hp).mp hwalk
  have hup : ".." ∉ c.output.openSegments := fun hmem => hp (c.output.openSegments_subset hmem)
  have hopen : out = start ++ Place.named c.output.openSegments := by
    rw [c.output.named_openSegments hp, hplace]
  have hfront : c.output.openSegments.foldlM d'.enter start = .ok out := by
    refine (Disk.walk_eq_ok_iff hup).mpr
      ⟨hopen, fun s hs => hshort s (c.output.openSegments_subset hs), .inr ?_⟩
    have hdir := h.hasDir
    rw [hopen] at hdir
    exact hdir.of_prefix (Place.append_named_prefix start (List.dropLast_prefix _))
  have hnames : ∀ n ∈ ["css", "tokens.css"], Work.IsPlainName n := by
    simp only [List.forall_mem_cons]
    exact ⟨⟨by decide +kernel, by decide, by decide⟩, ⟨by decide +kernel, by decide, by decide⟩, nofun⟩
  rw [declarationsPath_eq, c.output.join_ofNames (List.cons_ne_nil _ _)]
  exact Work.exists_writeFile hup (hnames _ (by simp)) (hnames _ (by simp))
    (Work.start_join hstart hnames (List.cons_ne_nil _ _)) hfront h.hasDir h.empty content

section Stages

variable {out : Place} (hplain : c.Plain) (hvalid : c.validate d.cwd = .ok ())
  (hout : c.output.normalize? d.cwd = some out) (hd : d.files.WellFormed) {cleaned declared styled : Disk}
  (hclean : c.clean d = (.ok (), cleaned))
include hplain hvalid hout hd hclean

theorem beside_of_writeFile {declarations sheet : ByteArray}
    (hdeclared : Work.writeFile c.declarationsPath declarations cleaned = (.ok (), declared))
    (hstyled : Work.writeFile c.stylesheetPath sheet declared = (.ok (), styled)) :
    Disk.Beside out d styled ∧ styled.files.WellFormed := by
  have hcleaned := cleaned_of_clean hplain.straight hout hclean
  have hsound := clean_sound hplain.spelled hout hd
  rw [hclean] at hsound
  have hout' : c.output.normalize? cleaned.cwd = some out := hcleaned.cwd_eq ▸ hout
  have hvalid' : c.validate cleaned.cwd = .ok () := hcleaned.cwd_eq ▸ hvalid
  obtain ⟨hup, place, hplace, hbelow⟩ := declarationsPath_below hplain hout'
  obtain ⟨hup', place', hplace', hbelow'⟩ := stylesheetPath_below hplain hout' hvalid'
  have hfills : Disk.Fills out cleaned cleaned :=
    ⟨⟨rfl, hsound.2⟩, hcleaned.hasDir, fun _ _ => rfl⟩
  have hfills := hfills.writeFile (Writes.declarations.spelled hplain.spelled) hup hplace hbelow.1
    declarations
  rw [hdeclared] at hfills
  have hfills := hfills.writeFile (Writes.stylesheet.spelled hplain.spelled) hup' hplace' hbelow'.1
    sheet
  rw [hstyled] at hfills
  refine ⟨⟨hfills.sound.1.trans hcleaned.cwd_eq, fun q hq => ?_⟩, hfills.sound.2⟩
  rw [hfills.kind?_eq q hq]
  exact hcleaned.paved q hq

end Stages

/-- How a build fails where a check finds an error. Cleaning makes the directories on the way to the
output directory, so that a token file which was missing may then be a directory, or one whose name is
too long. -/
inductive Foretold (c : Config) (d : Disk) (e : BuildError) : StageError → Prop
  | cleaning (x : BuildError) : c.Foretold d e ⟨.cleaning, x⟩
  | styles (x : BuildError) : c.Foretold d e ⟨.styles, x⟩
  | tokens : c.Foretold d e ⟨.tokens, e⟩
  | pages : c.Foretold d e ⟨.pages, e⟩
  | uncovered {x : DiskError} {place out q : Place} (missing : e = .load (.disk .notFound))
    (found : x = .isDirectory ∨ x = .nameTooLong) (tokens : c.tokens.normalize? d.cwd = some place)
    (output : c.output.normalize? d.cwd = some out) (on_way : q <+: place) (made : q <+: out)
    (none : d.kind? q = none) : c.Foretold d e ⟨.tokens, .load (.disk x)⟩

section Fill

variable {tokens : TokenSet} {css : String} {bytes : Nat} {declared styled : Disk}

theorem stage_of_eq_ok {x : Work BuildError α} {a : α} (h : x d = (.ok a, d')) (s : BuildState) :
    stage s x d = (.ok a, d') := by
  rw [stage, Work.mapError, h]
  rfl

theorem stage_fst_of_error {x : Work BuildError α} (h : (x d).1 = .error e) (s : BuildState) :
    (stage s x d).1 = .error ⟨s, e⟩ := congrArg (Except.mapError _) h

theorem fill_of_buildTokens (h : (c.buildTokens d).1 = .error e) :
    (c.fill race d).1 = .error ⟨.tokens, e⟩ :=
  Work.bind_fst_of_error (stage_fst_of_error h .tokens)

theorem fill_of_buildStyles (htokens : c.buildTokens d = (.ok (tokens, css), declared))
    (h : (c.buildStyles css declared).1 = .error e) : (c.fill race d).1 = .error ⟨.styles, e⟩ := by
  rw [fill, Work.bind_of_eq_ok (stage_of_eq_ok htokens .tokens)]
  exact Work.bind_fst_of_error (stage_fst_of_error h .styles)

theorem fill_of_buildPages (htokens : c.buildTokens d = (.ok (tokens, css), declared))
    (hstyles : c.buildStyles css declared = (.ok bytes, styled))
    (h : (c.buildPages race styled).1 = .error e) : (c.fill race d).1 = .error ⟨.pages, e⟩ := by
  rw [fill, Work.bind_of_eq_ok (stage_of_eq_ok htokens .tokens)]
  simp only
  rw [Work.bind_of_eq_ok (stage_of_eq_ok hstyles .styles)]
  exact Work.bind_fst_of_error (stage_fst_of_error h .pages)

end Fill

theorem exists_of_check_eq_error (h : c.check d = .error e) :
    c.readTokens d = .error e ∨
      ∃ tokens css, c.readTokens d = .ok (tokens, css) ∧ c.readPages d = .error e := by
  rw [check_eq] at h
  cases htokens : c.readTokens d with
  | error x =>
    rw [htokens] at h
    exact .inl (congrArg Except.error (Except.error.inj h))
  | ok x =>
    rw [htokens] at h
    refine .inr ⟨x.1, x.2, rfl, ?_⟩
    cases hpages : c.readPages d with
    | error y =>
      simp only [hpages, bind, Except.bind] at h
      exact congrArg Except.error (Except.error.inj h)
    | ok y =>
      simp only [hpages, bind, Except.bind] at h
      cases h

theorem build_of_check_error {out : Place} (hstraight : c.Straight) (hspelled : c.output.Spelled)
    (hvalid : c.validate d.cwd = .ok ()) (hd : d.files.WellFormed) (hout : c.OutputAt d.cwd out)
    (hcheck : c.check d = .error e) : ∃ f, (c.build race d).1 = .error f ∧ c.Foretold d e f := by
  have hplain := hstraight.plain hspelled
  rw [build_of_clean]
  cases hclean : c.clean d with
  | mk r cleaned =>
    cases r with
    | error x => exact ⟨_, rfl, .cleaning x⟩
    | ok u =>
      have hcleaned := cleaned_of_clean hplain.straight hout.output hclean
      have hread := exists_of_check_eq_error hcheck
      have htokens := readTokens_of_beside hstraight hout hcleaned.beside
      cases hnow : c.readTokens cleaned with
      | error x =>
        refine ⟨_, fill_of_buildTokens (buildTokens_of_error hnow), ?_⟩
        rw [hnow] at htokens
        obtain hsame | ⟨hmissing, y, hy, hfound, place, q, hplace, hq, hmade, hnone⟩ := htokens
        · obtain hread | ⟨tokens, css, hread, -⟩ := hread <;> rw [← hsame] at hread <;> cases hread
          exact .tokens
        · obtain hread | ⟨tokens, css, hread, -⟩ := hread <;> rw [hmissing] at hread <;> cases hread
          cases hfound
          exact .uncovered rfl hy hplace hout.output hq hmade hnone
      | ok x =>
        obtain ⟨tokens, css⟩ := x
        obtain ⟨declared, hwrite⟩ := hcleaned.exists_writeFile hplain.straight css.toUTF8
        have hbuilt := buildTokens_of_ok hnow hwrite
        have hpages : c.readPages d = .error e := by
          rw [hnow] at htokens
          obtain hsame | ⟨-, y, -, hfound, -⟩ := htokens
          · obtain hread | ⟨-, -, -, hpages⟩ := hread
            · rw [← hsame] at hread
              cases hread
            · exact hpages
          · cases hfound
        cases hstyles : c.buildStyles css declared with
        | mk r styled =>
          cases r with
          | error x => exact ⟨_, fill_of_buildStyles hbuilt (by rw [hstyles]), .styles x⟩
          | ok bytes =>
            obtain ⟨sheet, -, -, hwrite'⟩ := buildStyles_eq_ok hstyles
            obtain ⟨hbeside, hstyled⟩ :=
              beside_of_writeFile hplain hvalid hout.output hd hclean hwrite hwrite'
            have hsame := readPages_of_beside hstraight hout hd hstyled hbeside
            exact ⟨_, fill_of_buildPages hbuilt hstyles (buildPages_of_error (hsame.trans hpages)),
              .pages⟩

theorem check_of_build {out : Place} {report : BuildReport} (hstraight : c.Straight)
    (hspelled : c.output.Spelled) (hvalid : c.validate d.cwd = .ok ()) (hd : d.files.WellFormed)
    (hout : c.OutputAt d.cwd out) (hbuild : c.build race d = (.ok report, d')) :
    ∃ found, c.check d = .ok found ∧ found.tokens = report.tokens ∧
      found.fragments = report.fragments ∧ found.pages = report.pages := by
  have hplain := hstraight.plain hspelled
  obtain ⟨r, rfl⟩ := exists_run_of_build hbuild
  have hcleaned := cleaned_of_clean hplain.straight hout.output r.clean_eq
  obtain ⟨hbeside, hstyled⟩ :=
    beside_of_writeFile hplain hvalid hout.output hd r.clean_eq r.declared_eq r.styled_eq
  have htokens : c.readTokens d = .ok (r.tokens, r.declarations) := by
    have hnow : c.readTokens r.cleaned = .ok (r.tokens, r.declarations) := by
      simp [readTokens, r.tokens_eq, r.declarations_eq, Except.mapError, bind, Except.bind, pure,
        Except.pure]
    obtain hsame | ⟨-, x, -, hfound, -⟩ := readTokens_of_beside hstraight hout hcleaned.beside
    · exact hsame.symm.trans hnow
    · rw [hnow] at hfound
      cases hfound
  have hpages : c.readPages d = .ok (r.registry, r.pages) := by
    rw [← readPages_of_beside hstraight hout hd hstyled hbeside]
    simp [readPages, r.registry_eq, r.pages_eq, Shell.check_of_renderAll r.documents_eq,
      Except.mapError, bind, Except.bind, pure, Except.pure]
  have hcount : r.documents.length = r.pages.length := by
    simpa using congrArg List.length (Shell.map_fst_of_renderAll r.documents_eq)
  refine ⟨⟨r.tokens.size, r.registry.size, r.pages.length, r.registry.tierWarnings⟩, ?_, rfl, rfl,
    hcount.symm⟩
  rw [check_eq, htokens]
  simp only [hpages, bind, Except.bind]
  rfl

/-- A check foretells what the build that follows it comes to. -/
theorem check_foretells (race : Race) (hvalid : c.validate d.cwd = .ok ()) (hstraight : c.Straight)
    (hspelled : c.output.Spelled) (hd : d.files.WellFormed) :
    (∀ report, (c.build race d).1 = .ok report →
      ∃ found, c.check d = .ok found ∧ found.tokens = report.tokens ∧
        found.fragments = report.fragments ∧ found.pages = report.pages) ∧
    ∀ e, c.check d = .error e → ∃ f, (c.build race d).1 = .error f ∧ c.Foretold d e f := by
  obtain ⟨out, hout⟩ := outputAt_of_validate hvalid
  exact ⟨fun report h => check_of_build hstraight hspelled hvalid hd hout (Prod.ext h rfl),
    fun e h => build_of_check_error hstraight hspelled hvalid hd hout h⟩

theorem small_straight : small.Straight := by
  constructor <;> · unfold Path.Straight; decide +kernel

def smallLost : Config := { small with paths := { small.paths with tokens := .ofText "lost.json" } }

theorem check_foretells_small :
    (small.validate smallDisk.cwd = .ok () ∧ small.Straight ∧ small.output.Spelled ∧
      smallDisk.files.WellFormed ∧ ∃ report, (small.build .inOrder smallDisk).1 = .ok report ∧
        ∃ found, small.check smallDisk = .ok found ∧ found.tokens = report.tokens ∧
          found.fragments = report.fragments ∧ found.pages = report.pages) ∧
      smallLost.validate smallDisk.cwd = .ok () ∧ smallLost.Straight ∧ smallLost.output.Spelled ∧
        smallLost.check smallDisk = .error (.load (.disk .notFound)) ∧
        ∃ f, (smallLost.build .inOrder smallDisk).1 = .error f ∧
          smallLost.Foretold smallDisk (.load (.disk .notFound)) f := by
  have hvalid : small.validate smallDisk.cwd = .ok () := by decide +kernel
  have hforetells :=
    check_foretells .inOrder hvalid small_straight small_spelled smallDisk_wellFormed
  have hlostValid : smallLost.validate smallDisk.cwd = .ok () := by decide +kernel
  have hlost : smallLost.Straight := by
    constructor <;> · unfold Path.Straight; decide +kernel
  have hlostForetells :=
    check_foretells .inOrder hlostValid hlost small_spelled smallDisk_wellFormed
  have hok : (small.build .inOrder smallDisk).1.isOk := by decide +kernel
  have hfails : smallLost.check smallDisk = .error (.load (.disk .notFound)) := by decide +kernel
  refine ⟨⟨hvalid, small_straight, small_spelled, smallDisk_wellFormed, ?_⟩, hlostValid, hlost,
    small_spelled, hfails, hlostForetells.2 _ hfails⟩
  cases hbuild : (small.build .inOrder smallDisk).1 with
  | error e =>
    rw [hbuild] at hok
    cases hok
  | ok report => exact ⟨report, rfl, hforetells.1 report hbuild⟩

def smallNested : Config :=
  { small with paths := { tokens := .ofText "a.json", output := .ofText "a.json/dist" } }

/-- The cleaning makes a directory where the token file was missing. -/
theorem check_finds_missing :
    smallNested.validate smallDisk.cwd = .ok () ∧ smallNested.Straight ∧ smallDisk.files.WellFormed ∧
      smallNested.check smallDisk = .error (.load (.disk .notFound)) ∧
      (smallNested.build .inOrder smallDisk).1 = .error ⟨.tokens, .load (.disk .isDirectory)⟩ := by
  have hstraight : smallNested.Straight := by
    constructor <;> · unfold Path.Straight; decide +kernel
  exact ⟨by decide +kernel, hstraight, smallDisk_wellFormed, by decide +kernel, by decide +kernel⟩

end Config

end StaticSite
