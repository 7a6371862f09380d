import StaticSite.Build.Basic
import StaticSite.Proofs.Build.Clean
import StaticSite.Proofs.Disk.Sound
import StaticSite.Proofs.Page.Documents

namespace StaticSite

theorem Asset.copy_meets {cwd out place : Place} {source target : Path} (hspelled : target.Spelled)
    (htarget : target.normalize? cwd = some place) (hbelow : place.Below out) :
    (copy source target).Meets (Disk.SoundAt cwd) (·.Below out) (fun _ => False) fun _ => True := by
  refine Work.meets_get.bind fun d hd => (Work.meets_forM fun f hf => ?_).bind fun _ _ =>
    Work.meets_pure trivial
  obtain ⟨g, hg, rfl⟩ := List.mem_map.mp hf
  exact Work.writeFile_below_meets hspelled htarget (hbelow.append _)
    (Disk.names_of_mem_filesBelow hd.2 (List.mem_of_mem_filter hg))

namespace Config

variable {c : Config} {cwd out : Place}

theorem declarationsPath_eq (c : Config) :
    c.declarationsPath = c.output.join (.ofNames ["css", "tokens.css"]) :=
  congrArg c.output.join (by decide +kernel)

def IsSheet (c : Config) (cwd place : Place) : Prop :=
  (c.output.join (.ofText c.stylesheet)).normalize? cwd = some place

section Stages

variable (hspelled : c.output.Spelled)
  (hout : c.output.normalize? cwd = some out)
include hspelled hout

theorem buildTokens_meets :
    c.buildTokens.Meets (Disk.SoundAt cwd) (·.Below out) (fun _ => False) fun _ => True := by
  have hwrite : ∀ content, (Work.writeFile c.declarationsPath content).Meets (Disk.SoundAt cwd)
      (·.Below out) (fun _ => False) fun _ => True := by
    rw [c.declarationsPath_eq]
    exact fun _ => Work.writeFile_below_meets hspelled hout (Place.below_append (by decide))
      (by decide +kernel)
  refine (Work.meets_ask fun _ _ _ _ => trivial).bind fun tokens (_ : True) => .mapError ?_ _
  refine (Work.meets_ask fun _ _ _ _ => trivial).bind fun css (_ : True) => ?_
  exact ((hwrite _).mapError _).bind fun _ _ => Work.meets_pure trivial

theorem writeDocument_meets {p : PageSource} (hp : p.Named) (content : ByteArray) :
    (Work.writeFile (c.output.join p.output) content).Meets (Disk.SoundAt cwd) (·.Below out)
      (fun _ => False) fun _ => True := by
  obtain ⟨init, hinit, hup | ⟨stem, hstem, hname⟩⟩ := hp.output_cases
  · -- The path leads to a directory, over which no file is written.
    obtain ⟨start, hsegments⟩ := c.output.join_ofNames_concat init ".."
    refine Work.writeFile_meets (Work.keeps_soundAt cwd (hspelled.join hp.spelled_output)) ?_
    intro d place _ hfind hdir
    rw [hup] at hfind
    exact absurd (Disk.hasDir_of_find_up hsegments hfind) hdir
  · rw [hname]
    exact Work.writeFile_below_meets hspelled hout (Place.below_append (by simp))
      (List.forall_mem_append.mpr ⟨hinit, by simpa using hstem⟩)

theorem writePages_meets (r : Registry) {pages : List PageSource} (hpages : ∀ p ∈ pages, p.Named)
    (race : Race) : (c.writePages r pages race).Meets (Disk.SoundAt cwd) (·.Below out)
      (fun _ => False) fun _ => True := by
  refine (Work.meets_ask fun _ _ _ hdocs => hdocs).bind fun docs hdocs => .mapError ?_ _
  refine (Work.meets_forM fun doc hdoc => ?_).bind fun _ _ => Work.meets_pure trivial
  obtain ⟨p, hp, t, html, -, -, rfl⟩ := Shell.renderAll_mem hdocs hdoc
  exact writeDocument_meets hspelled hout (hpages p hp) _

theorem buildPages_meets (race : Race) :
    (c.buildPages race).Meets (Disk.SoundAt cwd) (·.Below out) (fun _ => False) fun _ => True := by
  have hload : ∀ d pages, d.SoundAt cwd →
      (PageSource.loadAll d c.pages).mapError (fun e => BuildError.pages (.load e)) = .ok pages →
      ∀ p ∈ pages, p.Named :=
    fun d pages hd h p => PageSource.named_of_mem_loadAll hd.2 (eq_ok_of_mapError h)
  refine (Work.meets_ask fun _ _ _ _ => trivial).bind fun r (_ : True) => ?_
  refine (Work.meets_ask hload).bind fun pages hpages => ?_
  exact ((writePages_meets hspelled hout r hpages race).mapError _).bind fun _ _ =>
    Work.meets_pure trivial

theorem copyAssets_meets :
    c.copyAssets.Meets (Disk.SoundAt cwd) (·.Below out) (fun _ => False) fun _ => True := by
  have hcopy : ∀ source name, IsFileName name → Path.ofText name = .ofNames [name] →
      (Asset.copy source (c.output.join (.ofText name))).Meets (Disk.SoundAt cwd) (·.Below out)
        (fun _ => False) fun _ => True := by
    intro source name hname hpath
    refine Asset.copy_meets (hspelled.join (Path.spelled_ofText name)) ?_
      (Place.below_append (List.cons_ne_nil name []))
    rw [hpath]
    exact Path.normalize?_join_ofNames hout (by simpa using hname)
  refine .mapError ?_ _
  refine (hcopy _ _ (by decide +kernel) (by decide +kernel)).bind fun _ _ => ?_
  refine (hcopy _ _ (by decide +kernel) (by decide +kernel)).bind fun _ _ => ?_
  exact Work.meets_pure trivial

end Stages

theorem buildStyles_meets (hspelled : c.output.Spelled) (declarations : String) :
    (c.buildStyles declarations).Meets (Disk.SoundAt cwd) (c.IsSheet cwd) (fun _ => False)
      fun _ => True := by
  have hwrite : ∀ content, (Work.writeFile (c.output.join (.ofText c.stylesheet)) content).Meets
      (Disk.SoundAt cwd) (c.IsSheet cwd) (fun _ => False) fun _ => True := by
    refine fun _ => Work.writeFile_meets
      (Work.keeps_soundAt cwd (hspelled.join (Path.spelled_ofText _))) ?_
    intro d place hd hfind _
    exact hd.1 ▸ Disk.normalize?_of_find hfind
  refine .mapError ((Work.meets_ask fun _ _ _ _ => trivial).bind fun css (_ : True) => ?_) _
  exact (hwrite _).bind fun _ _ => Work.meets_pure trivial

theorem build_meets (hspelled : c.output.Spelled) (hout : c.output.normalize? cwd = some out)
    (race : Race) : (c.build race).Meets (Disk.SoundAt cwd)
      (fun place => place.Below out ∨ c.IsSheet cwd place) (out <+: ·) fun _ => True := by
  have hstage : ∀ {α : Type} {x : Work BuildError α} {F G : Place → Prop},
      x.Meets (Disk.SoundAt cwd) F G (fun _ => True) →
      (∀ place, F place → place.Below out ∨ c.IsSheet cwd place) →
      (∀ place, G place → out <+: place) → ∀ s,
      (stage s x).Meets (Disk.SoundAt cwd) (fun place => place.Below out ∨ c.IsSheet cwd place)
        (out <+: ·) fun _ => True :=
    fun hx hF hG s => (hx.mono hF hG).mapError _
  have hclean := clean_meets (Work.keeps_soundAt cwd hspelled) fun d hd => hd.1 ▸ hout
  refine (hstage hclean (fun _ => .inl) (fun _ => id) _).bind fun _ _ => ?_
  refine (hstage (buildTokens_meets hspelled hout) (fun _ => .inl) nofun _).bind
    fun (tokens, declarations) _ => ?_
  refine (hstage (buildStyles_meets hspelled declarations) (fun _ => .inr) nofun _).bind
    fun bytes _ => ?_
  refine (hstage (buildPages_meets hspelled hout race) (fun _ => .inl) nofun _).bind
    fun (fragments, pages) _ => ?_
  refine (hstage (copyAssets_meets hspelled hout) (fun _ => .inl) nofun _).bind
    fun (assets, fonts) _ => ?_
  exact Work.meets_pure trivial

theorem build_of_invalid {d : Disk} {race : Race} {e : LoadError} (h : c.validate d.cwd = .error e) :
    c.build race d = (.error ⟨.cleaning, .load e⟩, d) := by
  rw [build, stage, Work.bind_apply, Work.mapError, clean_of_invalid h]
  rfl

/-- All that a build changes lies in the output directory, apart from the style sheet, also where the
build fails. So nothing that a build reads changes if the style sheet lies there, too. -/
theorem build_confined (c : Config) (race : Race) (d : Disk) {out : Place} (hd : d.files.WellFormed)
    (hspelled : c.output.Spelled) (hout : c.output.normalize? d.cwd = some out) :
    (∀ place, (c.build race d).2.file? place ≠ d.file? place →
      place.Below out ∨ c.IsSheet d.cwd place) ∧
    ((∀ place, c.IsSheet d.cwd place → place.Below out) → c.Spares d (c.build race d).2) := by
  cases hvalid : c.validate d.cwd with
  | error e =>
    rw [build_of_invalid hvalid]
    exact ⟨fun place h => absurd rfl h, fun _ => c.spares_refl d⟩
  | ok u =>
    obtain ⟨-, hevolves, -⟩ := build_meets hspelled hout race d ⟨rfl, hd⟩
    obtain ⟨out', hout'⟩ := outputAt_of_validate hvalid
    obtain rfl := Option.some.inj (hout.symm.trans hout'.output)
    refine ⟨fun place h => ?_, fun hsheet => hout'.spares (hevolves.mono ?_ fun _ => id)⟩
    · by_contra hplace
      exact h (hevolves.file?_eq place hplace)
    · rintro place (hplace | hplace)
      · exact hplace
      · exact hsheet place hplace

def small : Config where
  name := "Small"
  paths := { tokens := .ofText "tokens.json" }
  root := .ofText "/site"

def smallDisk : Disk where
  files := .ofFiles [(["site", "tokens.json"], "\x7b\x7d"), (["site", "styles", "base", "a.css"], "i")]
  cwd := ["site"]

theorem smallDisk_wellFormed : smallDisk.files.WellFormed :=
  FileTree.wellFormed_ofFiles (by decide +kernel)

theorem small_spelled : small.output.Spelled := by
  unfold Path.Spelled
  decide +kernel

theorem build_confined_small :
    smallDisk.files.WellFormed ∧ small.output.Spelled ∧
      small.output.normalize? smallDisk.cwd = some ["site", "dist"] ∧
      (small.build .inOrder smallDisk).1.isOk ∧
      small.Spares smallDisk (small.build .inOrder smallDisk).2 := by
  have hout : small.output.normalize? smallDisk.cwd = some ["site", "dist"] := by decide +kernel
  have hsheet : (small.output.join (.ofText small.stylesheet)).normalize? smallDisk.cwd =
      some (["site", "dist"] ++ ["css", "main.css"]) := by decide +kernel
  have hconfined := build_confined small .inOrder smallDisk smallDisk_wellFormed small_spelled hout
  refine ⟨smallDisk_wellFormed, small_spelled, hout, by decide +kernel,
    hconfined.2 fun place hplace => ?_⟩
  obtain rfl := Option.some.inj (hsheet.symm.trans hplace)
  exact Place.below_append (by decide)

def smallAstray : Config := { small with stylesheet := "../styles/base/a.css" }

theorem build_overwrites_source :
    smallAstray.validate smallDisk.cwd = .ok () ∧ smallDisk.files.WellFormed ∧
      smallAstray.output.normalize? smallDisk.cwd = some ["site", "dist"] ∧
      (smallAstray.build .inOrder smallDisk).1.isOk ∧
      (smallAstray.build .inOrder smallDisk).2.file? ["site", "styles", "base", "a.css"] ≠
        smallDisk.file? ["site", "styles", "base", "a.css"] := by
  refine ⟨by decide +kernel, smallDisk_wellFormed, by decide +kernel, by decide +kernel, ?_⟩
  decide +kernel

end Config

end StaticSite
