import StaticSite.Page.Directory
import StaticSite.Registry.Directory
import StaticSite.Style.Layer
import StaticSite.Proofs.Disk.Alike
import StaticSite.Proofs.Outcome
import StaticSite.Proofs.Registry.Entered

namespace StaticSite

namespace Disk

structure Lists (d : Disk) (dir : Path) (keep : Path → Bool) (files : List (Path × ByteArray)) :
    Prop where
  sorted : files.Pairwise fun f g => f.1.segments < g.1.segments
  mem_iff : ∀ f, f ∈ files ↔ keep f.1 = true ∧ ∃ place names, d.find dir = .ok place ∧
    d.HasDir place ∧ f.1 = .ofNames names ∧ d.file? (place ++ names) = some f.2

variable {d : Disk} {dir : Path} {keep : Path → Bool} {files files' : List (Path × ByteArray)}

theorem lists_select (hd : d.files.WellFormed) (dir : Path) (keep : Path → Bool) :
    d.Lists dir keep (d.select dir keep) where
  sorted := by
    have h : ((d.filesBelow dir).map fun f => (Path.ofNames f.1, f.2)).Pairwise
        fun f g => f.1.segments < g.1.segments :=
      List.pairwise_map.mpr (pairwise_filesBelow hd dir)
    exact h.filter _
  mem_iff f := by
    rw [select, List.mem_filter, and_comm, List.mem_map]
    refine and_congr_right fun _ => ⟨?_, ?_⟩
    · rintro ⟨⟨names, content⟩, hmem, rfl⟩
      obtain ⟨place, hfind, hdir, hfile⟩ := (mem_filesBelow hd).mp hmem
      exact ⟨place, names, hfind, hdir, rfl, hfile⟩
    · rintro ⟨place, names, hfind, hdir, hpath, hfile⟩
      refine ⟨(names, f.2), (mem_filesBelow hd).mpr ⟨place, hfind, hdir, hfile⟩, ?_⟩
      rw [← hpath]

theorem Lists.unique (h : d.Lists dir keep files) (h' : d.Lists dir keep files') :
    files = files' :=
  eq_of_pairwise_names h.sorted h'.sorted fun f => (h.mem_iff f).trans (h'.mem_iff f).symm

end Disk

namespace PageSource

def Loaded (dir : Path) (files : List (Path × ByteArray)) : Except LoadError (List PageSource) → Prop
  | .ok pages => List.Forall₂ (fun f p => ofFile dir f = .ok p) files pages
  | .error e => ∃ before f after, files = before ++ f :: after ∧
      (∀ g ∈ before, ∃ p, ofFile dir g = .ok p) ∧ ofFile dir f = .error e

theorem loaded_mapM (dir : Path) (files : List (Path × ByteArray)) :
    Loaded dir files (files.mapM (ofFile dir)) := by
  cases h : files.mapM (ofFile dir) with
  | ok pages => exact forall₂_of_mapM_eq_ok h
  | error e => exact exists_of_mapM_eq_error h

end PageSource

namespace Registry

def fragmentOf (dir : Path) (file : Path × ByteArray) : Except FragmentError Fragment := do
  let content ← (Disk.textOf file.2).mapError .disk
  Fragment.parse content (Fragment.nameOf file.1) (dir.join file.1)

theorem loadFile_eq (dir : Path) (r : Registry) (file : Path × ByteArray) :
    loadFile dir r file = fragmentOf dir file >>= r.register := by
  rw [loadFile, fragmentOf, bind_assoc]

theorem eq_add_of_register_eq_ok {r r' : Registry} {f : Fragment} (h : r.register f = .ok r') :
    r' = r.add f := by
  obtain hf | ⟨e, he⟩ := r.enter_cases f
  · rw [register_of_admits hf] at h
    exact (Except.ok.inj h).symm
  · rw [register, he] at h
    cases h

/-- What comes of loading files into a registry in turn: the fragment of each file after those that
are there, or the error of the first file that is not taken after those before it. -/
def Loaded (dir : Path) (r : Registry) (files : List (Path × ByteArray)) :
    Except FragmentError Registry → Prop
  | .ok r' => ∃ fragments, List.Forall₂ (fun f g => fragmentOf dir f = .ok g) files fragments ∧
      r' = fragments.foldl add r
  | .error e => ∃ before f after fragments, files = before ++ f :: after ∧
      List.Forall₂ (fun f g => fragmentOf dir f = .ok g) before fragments ∧
      loadFile dir (fragments.foldl add r) f = .error e

theorem Loaded.cons {dir : Path} {r r₁ : Registry} {file : Path × ByteArray}
    {files : List (Path × ByteArray)} {result : Except FragmentError Registry}
    (hfile : loadFile dir r file = .ok r₁) (h : Loaded dir r₁ files result) :
    Loaded dir r (file :: files) result := by
  rw [loadFile_eq] at hfile
  obtain ⟨g, hg, hr⟩ := exists_of_bind_eq_ok hfile
  obtain rfl := eq_add_of_register_eq_ok hr
  cases result with
  | ok r' =>
    obtain ⟨fragments, hall, hfragments⟩ := h
    exact ⟨g :: fragments, .cons hg hall, hfragments⟩
  | error e =>
    obtain ⟨before, f, after, fragments, rfl, hall, hf⟩ := h
    exact ⟨file :: before, f, after, g :: fragments, rfl, .cons hg hall, hf⟩

theorem loaded_foldlM (dir : Path) (r : Registry) (files : List (Path × ByteArray)) :
    Loaded dir r files (files.foldlM (loadFile dir) r) := by
  induction files generalizing r with
  | nil => exact ⟨[], .nil, rfl⟩
  | cons file files ih =>
    rw [List.foldlM_cons]
    cases hfile : loadFile dir r file with
    | error e => exact ⟨[], file, files, [], rfl, .nil, hfile⟩
    | ok r₁ => exact (ih r₁).cons hfile

end Registry

namespace Disk

variable {d d' : Disk}

/-- Rules, pages and fragments are found in the order of the paths of their files, whatever order
directories list their entries in: each file with the right extension, at any depth, once, and no
others. Each of the files is handled in its turn, up to the first that fails if one does. -/
theorem discovered_in_order (hd : d.files.WellFormed) (hd' : d'.files.WellFormed)
    (h : d.Alike d') (dir : Path) :
    ∃ rules beside pages fragments,
      d.Lists dir LayerSource.isRuleFile rules ∧
      d.Lists dir (fun p => LayerSource.isRuleFile p &&
        d.isFile ((dir.join p).withExtension "html")) beside ∧
      d.Lists dir PageSource.isPageFile pages ∧
      d.Lists dir Registry.isFragmentFile fragments ∧
      LayerSource.below d' dir = rules.map LayerSource.ofFile ∧
      LayerSource.besideFragments d' dir = beside.map LayerSource.ofFile ∧
      PageSource.Loaded dir pages (PageSource.loadAll d' dir) ∧
      ∀ r, Registry.Loaded dir r fragments (Registry.loadDirectory d' r dir) := by
  have hsame := select_congr (h.filesBelow_eq hd hd' dir)
  refine ⟨_, _, _, _, lists_select hd dir _, lists_select hd dir _, lists_select hd dir _,
    lists_select hd dir _, ?_, ?_, ?_, fun r => ?_⟩
  · rw [LayerSource.below, hsame]
  · simp only [LayerSource.besideFragments, hsame, h.isFile_eq]
  · rw [PageSource.loadAll, hsame]
    exact PageSource.loaded_mapM dir _
  · rw [Registry.loadDirectory, hsame]
    exact Registry.loaded_foldlM dir r _

theorem discovered_in_order_dotted :
    let rule : FileTree := .file ByteArray.empty
    let d : Disk := { files := .dir [("a", .dir [("b.css", rule)]), ("a.css", rule)] }
    let d' : Disk := { files := .dir [("a.css", rule), ("a", .dir [("b.css", rule)])] }
    d.files.WellFormed ∧ d'.files.WellFormed ∧ d.Alike d' ∧
      (LayerSource.below d' (.ofText "/")).map LayerSource.label = ["a/b.css", "a.css"] := by
  intro rule d d'
  have hinner : FileTree.WellFormed (.dir [("b.css", rule)]) :=
    .dir (by decide) (by decide) (by simpa using .file _)
  have hd : d.files.WellFormed := .dir (by decide) (by decide) (by simpa using ⟨hinner, .file _⟩)
  have hd' : d'.files.WellFormed := .dir (by decide) (by decide) (by simpa using ⟨.file _, hinner⟩)
  have h : d.Alike d' := by
    refine ⟨rfl, fun place => ?_⟩
    cases place with
    | nil => rfl
    | cons n ns =>
      change FileTree.kind? _ _ = FileTree.kind? _ _
      simp only [d, d', FileTree.kind?_dir_cons, List.lookup_cons, List.lookup_nil]
      by_cases ha : n = "a"
      · subst ha
        rfl
      · simp [beq_false_of_ne ha]
  obtain ⟨rules, _, _, _, hrules, -, -, -, hbelow, -⟩ := discovered_in_order hd hd' h (.ofText "/")
  refine ⟨hd, hd', h, ?_⟩
  have hfiles : d.filesBelow (.ofText "/") =
      [(["a", "b.css"], ByteArray.empty), (["a.css"], ByteArray.empty)] := by
    change d.files.files = _
    simp (disch := decide +kernel) only [d, FileTree.files_dir_of_pairwise, List.flatMap_cons]
    rfl
  rw [hbelow, hrules.unique (lists_select hd _ _), select, hfiles]
  decide +kernel

end Disk

end StaticSite
