import StaticSite.Proofs.Build.Cleaned
import StaticSite.Proofs.Build.Outputs

namespace StaticSite

section Files

variable {d d' : Disk}

theorem Registry.load_congr {dirs : List Path} (h : ∀ dir ∈ dirs, d'.filesBelow dir = d.filesBelow dir) :
    load d' dirs = load d dirs := by
  have hfold : ∀ r, dirs.foldlM (loadDirectory d') r = dirs.foldlM (loadDirectory d) r := by
    induction dirs with
    | nil => exact fun _ => rfl
    | cons dir dirs ih =>
      rw [List.forall_mem_cons] at h
      intro r
      rw [List.foldlM_cons, List.foldlM_cons, funext (ih h.2), loadDirectory, loadDirectory,
        Disk.select_congr h.1]
  rw [load, load, hfold]

theorem PageSource.loadAll_congr {dir : Path} (h : d'.filesBelow dir = d.filesBelow dir) :
    loadAll d' dir = loadAll d dir := by
  rw [loadAll, loadAll, Disk.select_congr h]

theorem TokenSet.load_congr {file : Path} (h : d'.read file = d.read file) :
    load d' file = load d file := by
  simp only [load, Disk.readText, h]

end Files

namespace Disk.ReadsAlike

variable {d d' : Disk} (h : d.ReadsAlike d')
include h

theorem layer_sources (c : Config) (l : Layer) : l.sources d' c = l.sources d c := by
  have hbeside : LayerSource.besideFragments d' = LayerSource.besideFragments d := by
    funext dir
    simp only [LayerSource.besideFragments, select_congr (h.filesBelow_eq dir), h.isFile_eq]
  rw [Layer.sources, Layer.sources, LayerSource.below, LayerSource.below,
    select_congr (h.filesBelow_eq _), hbeside]

theorem styleSheet_eq (c : Config) (declarations : String) :
    styleSheet d' c declarations = styleSheet d c declarations := by
  simp only [styleSheet, h.layer_sources]

theorem asset_files (dir : Path) : Asset.files d' dir = Asset.files d dir := by
  rw [Asset.files, Asset.files, h.filesBelow_eq]

end Disk.ReadsAlike

namespace Config

def fill (c : Config) (race : Race) : Work StageError BuildReport := do
  let (tokens, declarations) ← stage .tokens c.buildTokens
  let stylesheetBytes ← stage .styles (c.buildStyles declarations)
  let (fragments, pages) ← stage .pages (c.buildPages race)
  let (assets, fonts) ← stage .assets c.copyAssets
  return {
    tokens := tokens.size, stylesheetBytes, fragments, pages, assets, fonts
    states := BuildState.idle.onwards }

theorem build_eq (c : Config) (race : Race) :
    c.build race = (stage .cleaning c.clean >>= fun _ => c.fill race) := rfl

theorem build_of_clean (c : Config) (race : Race) (d : Disk) : c.build race d = match c.clean d with
    | (.ok (), cleaned) => c.fill race cleaned
    | (.error e, cleaned) => (.error ⟨.cleaning, e⟩, cleaned) := by
  rw [build_eq, Work.bind_apply, stage, Work.mapError]
  cases c.clean d with
  | mk r cleaned => cases r <;> rfl

inductive Writes (c : Config) : Path → Prop
  | declarations : c.Writes c.declarationsPath
  | stylesheet : c.Writes c.stylesheetPath
  | document {p : PageSource} (hp : p.Named) : c.Writes (c.output.join p.output)
  | asset {names : List String} (h : ∀ n ∈ names, IsFileName n) :
    c.Writes (c.assetTarget.join (.ofNames names))
  | font {names : List String} (h : ∀ n ∈ names, IsFileName n) :
    c.Writes (c.fontTarget.join (.ofNames names))

structure Respects (c : Config) (R : Disk → Disk → Prop) : Prop where
  wellFormed : ∀ d d', R d d' → d.files.WellFormed
  reads : ∀ d d', R d d' → d.ReadsAlike d'
  writes : ∀ p content, c.Writes p → (Work.writeFile p content).Same R

/-- The paths of the output directory and of the style sheet in it never lead up. -/
structure Plain (c : Config) : Prop where
  spelled : c.output.Spelled
  straight : c.output.Straight
  sheet : (Path.ofText c.stylesheet).Straight

theorem Writes.spelled {c : Config} {p : Path} (h : c.Writes p) (hspelled : c.output.Spelled) :
    p.Spelled := by
  have hfolder : ∀ {name : String} {names : List String}, (∀ n ∈ names, IsFileName n) →
      ((c.output.join (.ofText name)).join (.ofNames names)).Spelled := fun hnames =>
    (hspelled.join (Path.spelled_ofText _)).join (Path.spelled_ofNames hnames)
  cases h with
  | declarations => exact hspelled.join (Path.spelled_ofText _)
  | stylesheet => exact hspelled.join (Path.spelled_ofText _)
  | document hp => exact hspelled.join hp.spelled_output
  | asset hnames => exact hfolder hnames
  | font hnames => exact hfolder hnames

theorem respects_twin {c : Config} (hspelled : c.output.Spelled) (cwd : Place) :
    c.Respects (Disk.Twin cwd) where
  wellFormed _ _ h := h.sound.2
  reads _ _ h := h.readsAlike
  writes _ content hp := Work.writeFile_same (hp.spelled hspelled) content

theorem folder_below {cwd out : Place} {dir : Path} {folders names : List String} (hdir : dir.Straight)
    (hplace : dir.normalize? cwd = some (out ++ folders)) (hne : folders ++ names ≠ [])
    (hnames : ∀ n ∈ names, IsFileName n) :
    (dir.join (.ofNames names)).Straight ∧
      ∃ place, (dir.join (.ofNames names)).normalize? cwd = some place ∧ place.Below out := by
  refine ⟨hdir.join (Path.straight_ofNames hnames), _,
    Path.normalize?_join_ofNames hplace hnames, ?_⟩
  rw [List.append_assoc]
  exact Place.below_append hne

section Places

variable {c : Config} {cwd out : Place} (hplain : c.Plain) (hout : c.output.normalize? cwd = some out)
include hplain hout

theorem declarationsPath_below :
    c.declarationsPath.Straight ∧
      ∃ place, c.declarationsPath.normalize? cwd = some place ∧ place.Below out := by
  have hhere : c.output.normalize? cwd = some (out ++ []) := by rwa [List.append_nil]
  rw [declarationsPath_eq]
  exact folder_below hplain.straight hhere (by decide) (by decide +kernel)

theorem stylesheetPath_below (hvalid : c.validate cwd = .ok ()) :
    c.stylesheetPath.Straight ∧
      ∃ place, c.stylesheetPath.normalize? cwd = some place ∧ place.Below out := by
  obtain ⟨init, last, hsegments, hname, -⟩ := stylesheet_segments hvalid
  refine ⟨hplain.straight.join hplain.sheet, _,
    Path.normalize?_join hout (checkStylesheet_of_validate hvalid).1, ?_⟩
  rw [Place.foldl_follow hplain.sheet, hsegments, Place.named_append, Place.named_of_name hname]
  exact Place.below_append (by simp)

theorem Writes.place (hvalid : c.validate cwd = .ok ()) {p : Path} (h : c.Writes p) :
    (p.Straight ∧ ∃ place, p.normalize? cwd = some place ∧ place.Below out) ∨
      ∃ init, (∀ n ∈ init, IsFileName n) ∧ p = c.output.join (.ofNames (init ++ [".."])) := by
  have hfolder : ∀ {name : String}, Path.ofText name = .ofNames [name] → IsFileName name →
      (c.output.join (.ofText name)).Straight := fun hpath hname =>
    hplain.straight.join (hpath ▸ Path.straight_ofNames (by simpa using hname))
  cases h with
  | declarations => exact .inl (declarationsPath_below hplain hout)
  | stylesheet => exact .inl (stylesheetPath_below hplain hout hvalid)
  | document hp =>
    obtain ⟨init, hinit, hup | ⟨stem, hstem, hname⟩⟩ := hp.output_cases
    · exact .inr ⟨init, hinit, congrArg c.output.join hup⟩
    · have hhere : c.output.normalize? cwd = some (out ++ []) := by rwa [List.append_nil]
      rw [hname]
      exact .inl (folder_below hplain.straight hhere (by simp)
        (List.forall_mem_append.mpr ⟨hinit, by simpa using hstem⟩))
  | asset hall =>
    exact .inl (folder_below (hfolder (by decide +kernel) (by decide +kernel))
      (assetTarget_place hout) (by simp) hall)
  | font hall =>
    exact .inl (folder_below (hfolder (by decide +kernel) (by decide +kernel))
      (fontTarget_place hout) (by simp) hall)

end Places

namespace Respects

variable {c : Config} {R : Disk → Disk → Prop} (h : c.Respects R)
include h

theorem buildTokens_same : c.buildTokens.Same R := by
  refine Work.same_ask_bind (fun d d' hR => by rw [TokenSet.load_congr ((h.reads d d' hR).read_eq _)])
    fun _ _ tokens _ _ => .mapError ?_ _
  refine Work.same_ask_bind (fun _ _ _ => rfl) fun _ _ css _ _ => ?_
  exact ((h.writes _ _ .declarations).mapError _).bind fun _ => Work.same_pure _

theorem buildStyles_same (declarations : String) : (c.buildStyles declarations).Same R := by
  refine .mapError (Work.same_ask_bind (fun d d' hR => (h.reads d d' hR).styleSheet_eq c _)
    fun _ _ css _ _ => ?_) _
  exact (h.writes _ _ .stylesheet).bind fun _ => Work.same_pure _

theorem writePages_same (r : Registry) {pages : List PageSource} (hpages : ∀ p ∈ pages, p.Named) :
    (c.writePages r pages race).Same R := by
  refine Work.same_ask_bind (fun _ _ _ => rfl) fun _ _ docs _ hdocs => .mapError ?_ _
  refine (Work.same_forM fun doc hdoc => ?_).bind fun _ => Work.same_pure _
  obtain ⟨p, hp, t, html, -, -, rfl⟩ := Shell.renderAll_mem hdocs hdoc
  exact h.writes _ _ (.document (hpages p hp))

theorem buildPages_same (race : Race) : (c.buildPages race).Same R := by
  refine Work.same_ask_bind (fun d d' hR => by
      rw [Registry.load_congr fun dir _ => (h.reads d d' hR).filesBelow_eq dir])
    fun _ _ r _ _ => ?_
  refine Work.same_ask_bind (fun d d' hR => by
      rw [PageSource.loadAll_congr ((h.reads d d' hR).filesBelow_eq _)])
    fun d d' pages hR hpages => ?_
  refine ((h.writePages_same r fun p hp => ?_).mapError _).bind fun _ => Work.same_pure _
  exact PageSource.named_of_mem_loadAll (h.wellFormed d d' hR) (eq_ok_of_mapError hpages) hp

theorem copy_same {source target : Path}
    (htarget : ∀ names, (∀ n ∈ names, IsFileName n) → c.Writes (target.join (.ofNames names))) :
    (Asset.copy source target).Same R := by
  refine Work.same_get_bind (fun d d' hR => by rw [(h.reads d d' hR).asset_files])
    fun d d' hR => (Work.same_forM fun f hf => ?_).bind fun _ => Work.same_pure _
  obtain ⟨g, hg, rfl⟩ := List.mem_map.mp hf
  have hnames := Disk.names_of_mem_filesBelow (h.wellFormed d d' hR) (List.mem_of_mem_filter hg)
  exact h.writes _ _ (htarget _ hnames)

theorem copyAssets_same : c.copyAssets.Same R := by
  refine .mapError ((h.copy_same fun _ => .asset).bind fun _ => ?_) _
  exact (h.copy_same fun _ => .font).bind fun _ => Work.same_pure _

theorem fill_same (race : Race) : (c.fill race).Same R := by
  refine (h.buildTokens_same.mapError _).bind fun (tokens, declarations) => ?_
  refine ((h.buildStyles_same declarations).mapError _).bind fun bytes => ?_
  refine ((h.buildPages_same race).mapError _).bind fun (fragments, pages) => ?_
  exact (h.copyAssets_same.mapError _).bind fun (assets, fonts) => Work.same_pure _

end Respects

end Config

structure Disk.Fills (out : Place) (base d : Disk) : Prop where
  sound : d.SoundAt base.cwd
  hasDir : d.HasDir out
  kind?_eq : ∀ q, ¬out <+: q → d.kind? q = base.kind? q

namespace Disk.Fills

variable {out place : Place} {base d d' : Disk} {p : Path}

theorem makeDir (h : Fills out base d) (hspelled : p.Spelled) (hp : p.Straight)
    (hplace : p.normalize? base.cwd = some place) (hbelow : out <+: place) {q : Path}
    (hq : q.Precedes p) (hok : d.makeDir q = .ok d') : Fills out base d' := by
  have hsound := (Work.keeps_soundAt base.cwd hspelled).makeDir q d d' hq h.sound hok
  obtain ⟨made, hmade, hnone, -, hkind⟩ := kind?_of_makeDir hok
  rw [h.sound.1] at hmade
  -- The directory is made on the way to `place`, on which `out` is there already.
  have hunder : out <+: made := by
    obtain habove | hunder :=
      List.prefix_or_prefix_of_prefix (hq.place_prefix hp hmade hplace) hbelow
    · rw [kind?_eq_dir_iff.mpr (h.hasDir.of_prefix habove)] at hnone
      cases hnone
    · exact hunder
  refine ⟨hsound, (makeDir_grows hok).hasDir out id h.hasDir, fun r hr => ?_⟩
  have hne : r ≠ made := fun heq => hr (heq ▸ hunder)
  rw [hkind, if_neg hne, h.kind?_eq r hr]

theorem write (h : Fills out base d) (hspelled : p.Spelled)
    (hplace : p.normalize? base.cwd = some place) (hbelow : out <+: place) {content : ByteArray}
    (hok : d.write p content = .ok d') : Fills out base d' := by
  have hsound := (Work.keeps_soundAt base.cwd hspelled).write content d d' h.sound hok
  obtain ⟨found, hfind, hdir, hkind⟩ := kind?_of_write hok
  have hfound := normalize?_of_find hfind
  rw [h.sound.1, hplace] at hfound
  obtain rfl := Option.some.inj hfound
  refine ⟨hsound, ?_, fun r hr => ?_⟩
  · have hne : out ≠ place := fun heq => hdir (heq ▸ h.hasDir)
    exact (hasDir_congr ((hkind out).trans (if_neg hne))).mpr h.hasDir
  · have hne : r ≠ place := fun heq => hr (heq ▸ hbelow)
    rw [hkind, if_neg hne, h.kind?_eq r hr]

theorem writeFile (h : Fills out base d) (hspelled : p.Spelled) (hp : p.Straight)
    (hplace : p.normalize? base.cwd = some place) (hbelow : out <+: place) (content : ByteArray) :
    Fills out base (Work.writeFile p content d).2 :=
  Work.writeFile_keeps h (fun _ _ _ hq he hok => he.makeDir hspelled hp hplace hbelow hq hok)
    fun _ _ he hok => he.write hspelled hplace hbelow hok

theorem writeFile_up (h : Fills out base d) (hspelled : p.Spelled) {front : List String}
    (hsegments : p.segments = front ++ [".."]) (hp : ".." ∉ front)
    (hplace : (⟨p.isAbsolute, front⟩ : Path).normalize? base.cwd = some place)
    (hbelow : out <+: place) (content : ByteArray) :
    Fills out base (Work.writeFile p content d).2 := by
  have hfront : (⟨p.isAbsolute, front⟩ : Path).Spelled := fun s hs =>
    hspelled s (by rw [hsegments]; exact List.mem_append_left _ hs)
  refine Work.writeFile_keeps h (fun q e e' hq he hok => ?_) fun e e' he hok => ?_
  · obtain ⟨init, last, slashes, hends⟩ := endsInName_of_makeDir hok
    have hprefix := hsegments ▸ hq.segments_prefix
    have hq' := (List.prefix_concat_iff.mp hprefix).resolve_left (hends.ne_up front)
    exact he.makeDir hfront hp hplace hbelow ⟨hq.isAbsolute_eq, hq'⟩ hok
  · obtain ⟨found, hfind, hdir, -⟩ := kind?_of_write hok
    exact absurd (hasDir_of_find_up hsegments hfind) hdir

end Disk.Fills

namespace Config

variable {c : Config} {out : Place} {base d : Disk}

section Fills

variable (hplain : c.Plain) (hnamed : c.output.EndsInName)
  (hvalid : c.validate base.cwd = .ok ()) (hout : c.output.normalize? base.cwd = some out)
include hplain hnamed hvalid hout

theorem fills_of_writes {p : Path} (hp : c.Writes p) (content : ByteArray)
    (hd : Disk.Fills out base d) : Disk.Fills out base (Work.writeFile p content d).2 := by
  have hspelled := hp.spelled hplain.spelled
  obtain ⟨hstraight, place, hplace, hbelow⟩ | ⟨init, hinit, rfl⟩ := hp.place hplain hout hvalid
  · exact hd.writeFile hspelled hstraight hplace hbelow.1 content
  · obtain ⟨above, last, slashes, hends⟩ := hnamed
    have hsame := c.output.join_ofNames (List.concat_ne_nil ".." init)
    rw [hsame] at hspelled ⊢
    have hfront : ".." ∉ c.output.openSegments ++ init := by
      rw [List.mem_append, not_or]
      exact ⟨fun hmem => hplain.straight (c.output.openSegments_subset hmem),
        Path.straight_ofNames hinit⟩
    refine hd.writeFile_up hspelled (List.append_assoc _ _ _).symm hfront ?_
      (List.prefix_append out init) content
    rw [Path.normalize?_eq_some_iff] at hout ⊢
    refine ⟨by simp [Path.isEmpty, hends.openSegments_eq], ?_⟩
    rw [List.foldl_append, Path.foldl_openSegments]
    refine (congrArg (fun place => init.foldl Place.follow place) hout.2).trans ?_
    exact Place.foldl_follow_names (fun n hn => (hinit n hn).ofSegment?_eq) out

theorem respects_fills : c.Respects fun d d' => d' = d ∧ Disk.Fills out base d where
  wellFormed _ _ h := h.2.sound.2
  reads := by
    rintro d _ ⟨rfl, -⟩
    exact .refl _
  writes _ content hp :=
    Work.same_of_keeps fun _ => fills_of_writes hplain hnamed hvalid hout hp content

theorem fill_fills (race : Race) (hd : Disk.Fills out base d) : Disk.Fills out base (c.fill race d).2 :=
  ((respects_fills hplain hnamed hvalid hout).fill_same race d d ⟨rfl, hd⟩).2.2

end Fills

end Config

end StaticSite
