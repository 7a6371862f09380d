import Mathlib.Data.List.Sort
import StaticSite.Proofs.Disk.Find

namespace StaticSite

theorem eq_of_pairwise_names {α : Type} {names : α → List String} {as bs : List α}
    (has : as.Pairwise fun a b => names a < names b) (hbs : bs.Pairwise fun a b => names a < names b)
    (h : ∀ a, a ∈ as ↔ a ∈ bs) : as = bs := by
  have hirrefl : Std.Irrefl fun a b : α => names a < names b := ⟨fun a => List.lt_irrefl (names a)⟩
  have hantisymm : Std.Antisymm fun a b : α => names a < names b :=
    ⟨fun a b hab hba => absurd (List.lt_trans hab hba) (List.lt_irrefl (names a))⟩
  exact has.eq_of_mem_iff hbs h

namespace FileTree

theorem nameLe_iff {a b : String} : nameLe a b = true ↔ a ≤ b := by
  rw [nameLe, Bool.not_eq_true', decide_eq_false_iff_not, String.not_lt]

theorem mem_entryFiles {entries : List (String × FileTree)}
    {x : String × List (List String × ByteArray)} :
    x ∈ entryFiles entries ↔ ∃ e ∈ entries, (e.1, e.2.files) = x := by
  simp [entryFiles_eq]

theorem pairwise_mergeSort_entryFiles {entries : List (String × FileTree)}
    (h : (entries.map Prod.fst).Nodup) :
    ((entryFiles entries).mergeSort fun a b => nameLe a.1 b.1).Pairwise fun a b => a.1 < b.1 := by
  have hsorted : ((entryFiles entries).mergeSort fun a b => nameLe a.1 b.1).Pairwise
      fun a b => nameLe a.1 b.1 := by
    refine List.pairwise_mergeSort (fun a b c hab hbc => ?_) (fun a b => ?_) _
    · exact nameLe_iff.mpr (String.le_trans (nameLe_iff.mp hab) (nameLe_iff.mp hbc))
    · simpa [nameLe_iff] using String.le_total a.1 b.1
  have hfst : (entryFiles entries).map Prod.fst = entries.map Prod.fst := by simp [entryFiles_eq]
  have hne : ((entryFiles entries).mergeSort fun a b => nameLe a.1 b.1).Pairwise
      fun a b => a.1 ≠ b.1 := by
    refine List.pairwise_map.mp ((List.Perm.nodup_iff ?_).mpr (hfst ▸ h))
    exact (List.mergeSort_perm _ _).map Prod.fst
  exact hsorted.imp₂ (fun a b hle hab => Std.lt_of_le_of_ne (nameLe_iff.mp hle) hab) hne

theorem WellFormed.pairwise_files {t : FileTree} (h : t.WellFormed) :
    t.files.Pairwise fun f g => f.1 < g.1 := by
  induction h with
  | file content => exact List.pairwise_singleton _ _
  | @dir entries hnodup _ _ ih =>
    rw [files, List.pairwise_flatMap]
    refine ⟨fun x hx => ?_, (pairwise_mergeSort_entryFiles hnodup).imp fun hlt f hf g hg => ?_⟩
    · obtain ⟨e, he, rfl⟩ := mem_entryFiles.mp (List.mem_mergeSort.mp hx)
      exact List.pairwise_map.mpr ((ih e he).imp fun hlt => List.Lex.cons hlt)
    · obtain ⟨f', -, rfl⟩ := List.mem_map.mp hf
      obtain ⟨g', -, rfl⟩ := List.mem_map.mp hg
      exact List.Lex.rel hlt

theorem files_eq_of_file? {t u : FileTree} (ht : t.WellFormed) (hu : u.WellFormed)
    (h : ∀ names, t.file? names = u.file? names) : t.files = u.files := by
  refine eq_of_pairwise_names ht.pairwise_files hu.pairwise_files fun f => ?_
  rw [ht.mem_files, hu.mem_files, h]

theorem files_dir_of_pairwise {entries : List (String × FileTree)}
    (h : entries.Pairwise fun a b => nameLe a.1 b.1) :
    (dir entries).files = entries.flatMap fun e => e.2.files.map fun f => (e.1 :: f.1, f.2) := by
  have hsorted : (entries.map fun e => (e.1, e.2.files)).Pairwise fun a b => nameLe a.1 b.1 :=
    List.pairwise_map.mpr h
  rw [files, entryFiles_eq, List.mergeSort_of_pairwise hsorted, List.flatMap_map]

def sortedNames (entries : List (String × FileTree)) : List String :=
  (entries.map Prod.fst).mergeSort nameLe

theorem files_dir {entries : List (String × FileTree)} (h : (entries.map Prod.fst).Nodup) :
    (dir entries).files = (sortedNames entries).flatMap fun n =>
      (((entries.lookup n).getD empty).files).map fun f => (n :: f.1, f.2) := by
  have hnames : sortedNames entries =
      ((entryFiles entries).mergeSort fun a b => nameLe a.1 b.1).map Prod.fst := by
    rw [List.map_mergeSort (f := Prod.fst) (s := nameLe) fun _ _ _ _ => rfl, entryFiles_eq,
      List.map_map]
    rfl
  rw [files, hnames, List.flatMap_map]
  refine List.flatMap_congr fun x hx => ?_
  obtain ⟨e, he, rfl⟩ := mem_entryFiles.mp (List.mem_mergeSort.mp hx)
  rw [lookup_of_mem h he]
  rfl

end FileTree

namespace Disk

def listed (d : Disk) (place : Place) : List (List String × ByteArray) :=
  ((d.files.get? place).getD .empty).files

variable {d d' : Disk} {place : Place}

theorem wellFormed_getD (hd : d.files.WellFormed) (place : Place) :
    ((d.files.get? place).getD .empty).WellFormed := by
  cases h : d.files.get? place with
  | none => exact FileTree.wellFormed_empty
  | some t => exact (hd.get? h).1

theorem file?_getD (d : Disk) (place : Place) (names : List String) :
    ((d.files.get? place).getD .empty).file? names = d.file? (place ++ names) := by
  rw [file?, FileTree.file?, FileTree.file?, FileTree.get?_append]
  cases d.files.get? place with
  | none => cases names <;> rfl
  | some t => rfl

theorem listed_congr (hd : d.files.WellFormed) (hd' : d'.files.WellFormed)
    (h : ∀ names, d'.file? (place ++ names) = d.file? (place ++ names)) :
    d'.listed place = d.listed place :=
  FileTree.files_eq_of_file? (wellFormed_getD hd' place) (wellFormed_getD hd place) fun names => by
    rw [file?_getD, file?_getD, h]

theorem mem_listed (hd : d.files.WellFormed) {f : List String × ByteArray} :
    f ∈ d.listed place ↔ d.file? (place ++ f.1) = some f.2 := by
  rw [← file?_getD]
  exact (wellFormed_getD hd place).mem_files

theorem listed_of_none (h : d.files.get? place = none) : d.listed place = [] := by
  simp [listed, h, FileTree.empty, FileTree.files, FileTree.entryFiles]

theorem listed_of_file {content : ByteArray} (h : d.files.get? place = some (.file content)) :
    d.listed place = [([], content)] := by
  rw [listed, h]
  rfl

theorem listed_of_dir (hd : d.files.WellFormed) {entries : List (String × FileTree)}
    (h : d.files.get? place = some (.dir entries)) :
    d.listed place = (FileTree.sortedNames entries).flatMap fun n =>
      (d.listed (place ++ [n])).map fun f => (n :: f.1, f.2) := by
  rw [listed, h]
  cases (hd.get? h).1 with
  | dir hnodup _ _ =>
    refine (FileTree.files_dir hnodup).trans (List.flatMap_congr fun n _ => ?_)
    rw [listed, FileTree.get?_append, h, Option.bind_some, FileTree.get?]
    cases entries.lookup n <;> rfl

theorem filesBelow_of_hasDir {p : Path} (hfind : d.find p = .ok place) (hdir : d.HasDir place) :
    d.filesBelow p = d.listed place := by
  obtain ⟨entries, hget⟩ := hdir
  rw [filesBelow, stat?_eq_some_iff.mpr ⟨place, hfind, hget⟩, listed, hget]
  rfl

theorem filesBelow_of_isDir_eq_false {p : Path} (h : d.isDir p = false) : d.filesBelow p = [] := by
  unfold filesBelow
  split
  · next entries hstat => simp [isDir, hstat, FileTree.isDir] at h
  · rfl

theorem pairwise_filesBelow (hd : d.files.WellFormed) (dir : Path) :
    (d.filesBelow dir).Pairwise fun f g => f.1 < g.1 := by
  unfold filesBelow
  split
  · next entries hstat =>
    obtain ⟨place, -, hget⟩ := stat?_eq_some_iff.mp hstat
    exact (hd.get? hget).1.pairwise_files
  · exact .nil

end Disk

end StaticSite
