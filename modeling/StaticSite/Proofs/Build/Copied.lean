import StaticSite.Proofs.Build.Outputs
import StaticSite.Proofs.Disk.Alike

namespace StaticSite.Asset

variable {d d' e : Disk} {source target : Path} {s t : Place} {n : Nat} {names : List String}

def counted (os : List (Path × ByteArray)) : Work DiskError Nat := do
  Work.writeAll os
  return os.length

theorem counted_append (os os' : List (Path × ByteArray)) :
    counted (os ++ os') = (do return (← counted os) + (← counted os')) := by
  have happend : Work.writeAll (os ++ os') = (Work.writeAll os >>= fun _ => Work.writeAll os') :=
    List.forM_append
  simp only [counted, happend, bind_assoc, pure_bind, List.length_append]

theorem counted_apply_snd (os : List (Path × ByteArray)) (d : Disk) :
    (counted os d).2 = (Work.writeAll os d).2 := by
  rw [counted, Work.bind_apply]
  cases Work.writeAll os d with
  | mk r e => cases r <;> rfl

theorem copy_apply (source target : Path) (d : Disk) :
    copy source target d = counted (copies d source target) d := by
  have hcounted : counted (copies d source target) = (do
      (files d source).forM fun f => Work.writeFile (target.join f.1) f.2
      return (files d source).length) := by
    rw [counted, copies, Work.writeAll_map, List.length_map]
  rw [hcounted]
  rfl

/-- Copies what lies at the end of a way down from a place. A directory is looked at when its turn
comes, and its entries are copied one after another; hidden ones are passed over, with all that lies
below them. `fuel` bounds how deep that is. -/
def copyFrom (s : Place) (target : Path) : Nat → List String → Work DiskError Nat
  | 0, _ => return 0
  | fuel + 1, names => do
    match (← get).files.get? (s ++ names) with
    | none => return 0
    | some (.file content) =>
      Work.writeFile (target.join (.ofNames names)) content
      return 1
    | some (.dir entries) =>
      ((FileTree.sortedNames entries).filter fun n => !isHidden n).foldlM (fun count n =>
        return count + (← copyFrom s target fuel (names ++ [n]))) 0

def copyEach (fuel : Nat) (source target : Path) : Work DiskError Nat := do
  if (← get).isDir source then
    copyFrom (← Work.ask fun d => d.find source) target fuel []
  else return 0

def copiesFrom (d : Disk) (s : Place) (target : Path) (names : List String) :
    List (Path × ByteArray) :=
  ((d.listed (s ++ names)).filter fun f => !f.1.any isHidden).map fun f =>
    (target.join (.ofNames (names ++ f.1)), f.2)

theorem copiesFrom_of_none (h : d.files.get? (s ++ names) = none) :
    copiesFrom d s target names = [] := by
  rw [copiesFrom, Disk.listed_of_none h]
  rfl

theorem copiesFrom_of_file {content : ByteArray}
    (h : d.files.get? (s ++ names) = some (.file content)) :
    copiesFrom d s target names = [(target.join (.ofNames names), content)] := by
  rw [copiesFrom, Disk.listed_of_file h]
  simp

theorem copiesFrom_of_dir (hd : d.files.WellFormed) {entries : List (String × FileTree)}
    (h : d.files.get? (s ++ names) = some (.dir entries)) :
    copiesFrom d s target names =
      ((FileTree.sortedNames entries).filter fun n => !isHidden n).flatMap fun n =>
        copiesFrom d s target (names ++ [n]) := by
  rw [copiesFrom, Disk.listed_of_dir hd h, List.filter_flatMap, List.map_flatMap]
  generalize FileTree.sortedNames entries = ns
  induction ns with
  | nil => rfl
  | cons n ns ih =>
    rw [List.flatMap_cons, ih, List.filter_cons]
    by_cases hn : isHidden n
    · simp [hn, List.filter_map, Function.comp_def]
    · simp [hn, List.filter_map, Function.comp_def, copiesFrom]

theorem foldlM_counted {R : Disk → Prop} {f : String → Work DiskError Nat}
    {os : String → List (Path × ByteArray)} {ns : List String}
    (hf : ∀ n e, R e → f n e = counted (os n) e)
    (hR : ∀ n e, R e → R (counted (os n) e).2) (count : Nat) (he : R e) :
    (ns.foldlM (fun count n => return count + (← f n)) count : Work DiskError Nat) e =
      (do return count + (← counted (ns.flatMap os)) : Work DiskError Nat) e := by
  induction ns generalizing count e with
  | nil => rfl
  | cons n ns ih =>
    rw [List.foldlM_cons, List.flatMap_cons, counted_append]
    simp only [bind_assoc, pure_bind]
    refine Work.bind_apply_congr (hf n e he) fun k e' hk => ?_
    have hnext := hR n e he
    rw [hk] at hnext
    rw [ih (count + k) hnext]
    simp only [Nat.add_assoc]

structure Intact (s : Place) (d e : Disk) : Prop where
  cwd_eq : e.cwd = d.cwd
  wellFormed : e.files.WellFormed
  file?_eq : ∀ names, e.file? (s ++ names) = d.file? (s ++ names)

theorem Intact.refl (hd : d.files.WellFormed) (s : Place) : Intact s d d := ⟨rfl, hd, fun _ => rfl⟩

theorem Intact.copiesFrom_eq (h : Intact s d e) (hd : d.files.WellFormed) (target : Path)
    (names : List String) : copiesFrom e s target names = copiesFrom d s target names := by
  rw [copiesFrom, copiesFrom, Disk.listed_congr hd h.wellFormed fun below => ?_]
  rw [List.append_assoc]
  exact h.file?_eq _

theorem names_of_mem_copiesFrom (hd : d.files.WellFormed) {o : Path × ByteArray}
    (ho : o ∈ copiesFrom d s target names) :
    ∃ below, (∀ n ∈ below, IsFileName n) ∧ o.1 = target.join (.ofNames below) := by
  obtain ⟨f, hf, rfl⟩ := List.mem_map.mp ho
  have hfile := (Disk.mem_listed hd).mp (List.mem_of_mem_filter hf)
  have hnames := (hd.get? (FileTree.file?_eq_some_iff.mp hfile)).2
  rw [List.append_assoc] at hnames
  exact ⟨_, fun n hn => hnames n (List.mem_append_right s hn), rfl⟩

def shown (d : Disk) (dir : Path) : List (List String × ByteArray) :=
  (d.filesBelow dir).filter fun f => !f.1.any isHidden

theorem copies_eq (d : Disk) (source target : Path) :
    copies d source target = (shown d source).map fun f => (target.join (.ofNames f.1), f.2) :=
  List.map_map

theorem mem_shown (hd : d.files.WellFormed) {f : List String × ByteArray} :
    f ∈ shown d source ↔ (∀ n ∈ f.1, isHidden n = false) ∧
      ∃ place, d.find source = .ok place ∧ d.HasDir place ∧ d.file? (place ++ f.1) = some f.2 := by
  rw [shown, List.mem_filter, Disk.mem_filesBelow hd, and_comm]
  simp

theorem nodup_shown (hd : d.files.WellFormed) (dir : Path) : ((shown d dir).map Prod.fst).Nodup := by
  refine List.pairwise_map.mpr (((Disk.pairwise_filesBelow hd dir).filter _).imp fun h => ?_)
  rintro heq
  exact List.lt_irrefl _ (heq ▸ h)

theorem copies_of_hasDir (hfind : d.find source = .ok s) (hdir : d.HasDir s) (target : Path) :
    copies d source target = copiesFrom d s target [] := by
  rw [copies_eq, shown, Disk.filesBelow_of_hasDir hfind hdir, copiesFrom, List.append_nil]
  rfl

theorem copies_of_isDir_eq_false (h : d.isDir source = false) (target : Path) :
    copies d source target = [] := by
  rw [copies_eq, shown, Disk.filesBelow_of_isDir_eq_false h]
  rfl

theorem shown_place (hd : d.files.WellFormed) (htarget : target.normalize? d.cwd = some t)
    {f : List String × ByteArray} (hf : f ∈ shown d source) :
    (target.join (.ofNames f.1)).normalize? d.cwd = some (t ++ f.1) :=
  Path.normalize?_join_ofNames htarget
    (Disk.names_of_mem_filesBelow hd (List.mem_of_mem_filter hf))

theorem copy_evolves (hd : d.files.WellFormed) (htarget : target.normalize? d.cwd = some t)
    (h : copy source target d = (.ok n, d')) :
    d.Evolves (fun place => ∃ f ∈ shown d source, place = t ++ f.1) (fun _ => False) d' := by
  obtain ⟨-, hwrite⟩ := copy_eq_ok h
  have hevolves := Work.writeAll_evolves hwrite
  refine hevolves.mono ?_ fun _ => id
  rintro place ⟨o, ho, hfind⟩
  rw [copies_eq] at ho
  obtain ⟨f, hf, rfl⟩ := List.mem_map.mp ho
  have hplace := Disk.normalize?_of_find hfind
  rw [hevolves.cwd_eq, shown_place hd htarget hf] at hplace
  exact ⟨f, hf, (Option.some.inj hplace).symm⟩

theorem file?_of_copy (hd : d.files.WellFormed) (htarget : target.normalize? d.cwd = some t)
    (h : copy source target d = (.ok n, d')) {f : List String × ByteArray}
    (hf : f ∈ shown d source) : d'.file? (t ++ f.1) = some f.2 := by
  obtain ⟨-, hwrite⟩ := copy_eq_ok h
  have hcwd := (copy_evolves hd htarget h).cwd_eq
  have hmem : (target.join (.ofNames f.1), f.2) ∈ copies d source target := by
    rw [copies_eq]
    exact List.mem_map_of_mem hf
  have hlasts := outlasts_copies ⟨rfl, hd⟩ htarget hmem
  rw [← List.nil_append (copies d source target)] at hwrite
  obtain ⟨place, hfind, hfile⟩ :=
    Disk.read_eq_ok_iff.mp (Work.read_of_writeAll hwrite hmem (hcwd ▸ hlasts))
  have hplace := Disk.normalize?_of_find hfind
  rw [hcwd, shown_place hd htarget hf] at hplace
  obtain rfl := Option.some.inj hplace
  exact hfile

theorem exists_depth (hd : d.files.WellFormed) (s : Place) :
    ∃ depth, ∀ below, (d.file? (s ++ below)).isSome → below.length < depth := by
  refine ⟨((d.listed s).map fun f => f.1.length).max?.getD 0 + 1, fun below hfile => ?_⟩
  obtain ⟨content, hcontent⟩ := Option.isSome_iff_exists.mp hfile
  have hmem : (below, content) ∈ d.listed s := (Disk.mem_listed hd).mpr hcontent
  exact Nat.lt_succ_of_le (List.le_max?_getD_of_mem (List.mem_map_of_mem hmem))

section Disjoint

variable (hd : d.files.WellFormed) (hspelled : target.Spelled)
  (hsource : source.normalize? d.cwd = some s) (htarget : target.normalize? d.cwd = some t)
  (hst : ¬s <+: t) (hts : ¬t <+: s)
include hspelled htarget hst hts

theorem writeFile_intact (hnames : ∀ n ∈ names, IsFileName n) (content : ByteArray)
    (h : Intact s d e) : Intact s d (Work.writeFile (target.join (.ofNames names)) content e).2 := by
  have hpath : (target.join (.ofNames names)).Spelled := hspelled.join (Path.spelled_ofNames hnames)
  refine Work.writeFile_keeps h (fun q e e' hq h hmake => ?_) fun e e' h hwrite => ?_
  · have hgrows := Disk.makeDir_grows hmake
    exact ⟨hgrows.cwd_eq.trans h.cwd_eq, Disk.makeDir_wellFormed (hq.spelled hpath) h.wellFormed hmake,
      fun below => (hgrows.file?_eq _ id).trans (h.file?_eq below)⟩
  · obtain ⟨place, hfind, -, -, hevolves⟩ := Disk.write_evolves hwrite
    have hplace := Disk.normalize?_of_find hfind
    rw [h.cwd_eq, Path.normalize?_join_ofNames htarget hnames] at hplace
    obtain rfl := Option.some.inj hplace
    exact ⟨hevolves.cwd_eq.trans h.cwd_eq, Disk.write_wellFormed hpath h.wellFormed hwrite,
      fun below => (hevolves.file?_eq _ (Place.append_ne_append hst hts _ _)).trans (h.file?_eq below)⟩

theorem writeAll_intact {os : List (Path × ByteArray)}
    (hos : ∀ o ∈ os, ∃ names, (∀ n ∈ names, IsFileName n) ∧ o.1 = target.join (.ofNames names))
    (h : Intact s d e) : Intact s d (Work.writeAll os e).2 := by
  induction os generalizing e with
  | nil => exact h
  | cons o os ih =>
    rw [List.forall_mem_cons] at hos
    obtain ⟨⟨names, hnames, ho⟩, hos⟩ := hos
    have hfirst := writeFile_intact hspelled htarget hst hts hnames o.2 h
    rw [← ho] at hfirst
    change Intact s d ((Work.writeFile o.1 o.2 >>= fun _ => Work.writeAll os) e).2
    rw [Work.bind_apply]
    cases hwrite : Work.writeFile o.1 o.2 e with
    | mk r e' =>
      rw [hwrite] at hfirst
      cases r with
      | error _ => exact hfirst
      | ok _ => exact ih hos hfirst

include hd

theorem copyFrom_apply {fuel : Nat} (h : Intact s d e)
    (hdeep : ∀ below, (d.file? (s ++ names ++ below)).isSome → below.length < fuel) :
    copyFrom s target fuel names e = counted (copiesFrom d s target names) e := by
  induction fuel generalizing names e with
  | zero =>
    have hnone : d.listed (s ++ names) = [] :=
      List.eq_nil_iff_forall_not_mem.mpr fun f hf => by
        have hfile := (Disk.mem_listed hd).mp hf
        exact absurd (hdeep f.1 (Option.isSome_of_eq_some hfile)) (Nat.not_lt_zero _)
    rw [copiesFrom, hnone]
    rfl
  | succ fuel ih =>
    rw [copyFrom, Work.bind_apply, Work.get_apply]
    dsimp only
    rw [← h.copiesFrom_eq hd]
    cases hget : e.files.get? (s ++ names) with
    | none =>
      rw [copiesFrom_of_none hget]
      rfl
    | some found =>
      cases found with
      | file content =>
        rw [copiesFrom_of_file hget, counted, Work.writeAll_singleton]
        rfl
      | dir entries =>
        rw [copiesFrom_of_dir h.wellFormed hget]
        simp only [h.copiesFrom_eq hd]
        have hentry : ∀ n e, Intact s d e → copyFrom s target fuel (names ++ [n]) e =
            counted (copiesFrom d s target (names ++ [n])) e := fun n e h =>
          ih h fun below hfile =>
            Nat.succ_lt_succ_iff.mp (hdeep (n :: below) (by simpa using hfile))
        have hkeeps : ∀ n e, Intact s d e →
            Intact s d (counted (copiesFrom d s target (names ++ [n])) e).2 := fun n e h => by
          rw [counted_apply_snd]
          exact writeAll_intact hspelled htarget hst hts (fun o ho => names_of_mem_copiesFrom hd ho) h
        refine (foldlM_counted hentry hkeeps 0 h).trans ?_
        simp only [Nat.zero_add, bind_pure]

include hsource

theorem exists_copyEach_eq :
    ∃ depth, ∀ fuel, depth ≤ fuel → copyEach fuel source target d = copy source target d := by
  obtain ⟨depth, hdepth⟩ := exists_depth hd s
  refine ⟨depth, fun fuel hfuel => ?_⟩
  rw [copy_apply, copyEach, Work.bind_apply, Work.get_apply]
  dsimp only
  split
  · next hdir =>
    obtain ⟨place, hfind, hplace⟩ := Disk.isDir_eq_true_iff.mp hdir
    obtain rfl := Option.some.inj ((Disk.normalize?_of_find hfind).symm.trans hsource)
    rw [Work.bind_apply, Work.ask_apply, hfind, copies_of_hasDir hfind hplace]
    refine copyFrom_apply hd hspelled htarget hst hts (.refl hd _) fun below hbelow => ?_
    rw [List.append_nil] at hbelow
    exact Nat.lt_of_lt_of_le (hdepth below hbelow) hfuel
  · next hdir =>
    rw [copies_of_isDir_eq_false (Bool.not_eq_true _ ▸ hdir)]
    rfl

/-- A copy that succeeds is exact: it has written the files below the source that lie under no hidden
name, each to the same names below the target and with the same content, and there are as many of
them as it says. All other files are what they were. It makes no difference that a directory is
looked at only when its turn comes, after files of others were written. -/
theorem copy_exact (h : copy source target d = (.ok n, d')) :
    (∃ depth, ∀ fuel, depth ≤ fuel → copyEach fuel source target d = (.ok n, d')) ∧
    ∃ fs : List (List String × ByteArray),
      (fs.map Prod.fst).Nodup ∧
      (∀ f, f ∈ fs ↔ (∀ n ∈ f.1, isHidden n = false) ∧ ∃ place, d.find source = .ok place ∧
        d.HasDir place ∧ d.file? (place ++ f.1) = some f.2) ∧
      n = fs.length ∧
      Work.writeAll (fs.map fun f => (target.join (.ofNames f.1), f.2)) d = (.ok (), d') ∧
      (∀ f ∈ fs, d'.file? (t ++ f.1) = some f.2 ∧ d'.file? (s ++ f.1) = some f.2) ∧
      ∀ place, (∀ f ∈ fs, place ≠ t ++ f.1) → d'.file? place = d.file? place := by
  obtain ⟨hn, hwrite⟩ := copy_eq_ok h
  have hframe : ∀ place, (∀ f ∈ shown d source, place ≠ t ++ f.1) →
      d'.file? place = d.file? place := fun place hne =>
    (copy_evolves hd htarget h).file?_eq place fun ⟨f, hf, heq⟩ => hne f hf heq
  refine ⟨?_, shown d source, nodup_shown hd source, fun f => mem_shown hd, ?_, ?_,
    fun f hf => ⟨file?_of_copy hd htarget h hf, ?_⟩, hframe⟩
  · obtain ⟨depth, hdepth⟩ := exists_copyEach_eq hd hspelled hsource htarget hst hts
    exact ⟨depth, fun fuel hfuel => (hdepth fuel hfuel).trans h⟩
  · rw [hn, files, List.length_map]
    rfl
  · rwa [← copies_eq]
  · rw [hframe _ fun _ _ => Place.append_ne_append hst hts _ _]
    obtain ⟨-, place, hfind, -, hfile⟩ := (mem_shown hd).mp hf
    obtain rfl := Option.some.inj ((Disk.normalize?_of_find hfind).symm.trans hsource)
    exact hfile

end Disjoint

theorem copy_exact_hidden :
    let icon := "<svg/>".toUTF8
    let d : Disk := { files := .dir [("assets", .dir [
      (".git", .dir [("config", .file ByteArray.empty)]),
      ("img", .dir [(".DS_Store", .file ByteArray.empty), ("close.svg", .file icon)])])] }
    d.files.WellFormed ∧ ∃ d', copy (.ofText "/assets") (.ofText "/out") d = (.ok 1, d') ∧
      d'.file? ["out", "img", "close.svg"] = some icon ∧
      d'.file? ["out", ".git", "config"] = none := by
  intro icon d
  have himg : FileTree.WellFormed
      (.dir [(".DS_Store", .file ByteArray.empty), ("close.svg", .file icon)]) :=
    .dir (by decide) (by decide) (by simpa using ⟨.file _, .file _⟩)
  have hgit : FileTree.WellFormed (.dir [("config", .file ByteArray.empty)]) :=
    .dir (by decide) (by decide) (by simpa using .file _)
  have hassets : FileTree.WellFormed (.dir [(".git", .dir [("config", .file ByteArray.empty)]),
      ("img", .dir [(".DS_Store", .file ByteArray.empty), ("close.svg", .file icon)])]) :=
    .dir (by decide) (by decide) (by simpa using ⟨hgit, himg⟩)
  have hd : d.files.WellFormed := .dir (by decide) (by decide) (by simpa using hassets)
  have hcopies : copies d (.ofText "/assets") (.ofText "/out") =
      [((Path.ofText "/out").join (.ofNames ["img", "close.svg"]), icon)] := by
    have hbelow : d.filesBelow (.ofText "/assets") = [([".git", "config"], ByteArray.empty),
        (["img", ".DS_Store"], ByteArray.empty), (["img", "close.svg"], icon)] := by
      have hfind : d.find (.ofText "/assets") = .ok ["assets"] := by decide +kernel
      rw [Disk.filesBelow_of_hasDir hfind ⟨_, rfl⟩, Disk.listed]
      change (FileTree.dir _).files = _
      simp (disch := decide +kernel) only [FileTree.files_dir_of_pairwise, List.flatMap_cons]
      rfl
    rw [copies_eq, shown, hbelow]
    rfl
  have hcopy : (copy (.ofText "/assets") (.ofText "/out") d).1 = .ok 1 := by
    rw [copy_apply, hcopies]
    decide +kernel
  obtain ⟨-, fs, -, hmem, -, -, hwritten, hframe⟩ :=
    copy_exact (s := ["assets"]) (t := ["out"]) hd (Path.spelled_ofText _) (by decide +kernel)
      (by decide +kernel) (by decide) (by decide) (Prod.ext hcopy rfl)
  refine ⟨hd, _, Prod.ext hcopy rfl, ?_, ?_⟩
  · refine (hwritten (["img", "close.svg"], icon) ((hmem _).mpr ⟨by decide, ?_⟩)).1
    exact ⟨["assets"], by decide +kernel, ⟨_, rfl⟩, rfl⟩
  · rw [hframe _ fun f hf heq => ?_]
    · rfl
    · have hnames : [".git", "config"] = f.1 := (List.cons.inj heq).2
      exact absurd (((hmem f).mp hf).1 ".git" (by simp [← hnames])) (by decide)

end StaticSite.Asset
