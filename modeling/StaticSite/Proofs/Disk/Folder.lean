import StaticSite.Proofs.Disk.Making

namespace StaticSite.Work

variable {d : Disk}

structure IsPlainName (s : String) : Prop where
  fileName : IsFileName s
  short : s.utf8ByteSize ≤ Disk.nameLimit
  no_nul : '\x00' ∉ s.toList

theorem start_join {dir : Path} {start : Place} (hstart : d.start dir = .ok start)
    {names : List String} (hnames : ∀ n ∈ names, IsPlainName n) (hne : names ≠ []) :
    d.start ⟨dir.isAbsolute, dir.openSegments ++ names⟩ = .ok start := by
  have hempty : (⟨dir.isAbsolute, dir.openSegments ++ names⟩ : Path).isEmpty = false := by
    simp [Path.isEmpty, hne]
  unfold Disk.start at hstart ⊢
  rw [if_neg (by simp [hempty])]
  split at hstart
  · cases hstart
  · split at hstart
    · cases hstart
    · next hnul =>
      rw [if_neg]
      · exact hstart
      · simp only [List.any_eq_true, not_exists, not_and, List.contains_iff_mem] at hnul ⊢
        intro s hs
        obtain hs | hs := List.mem_append.mp hs
        · exact hnul s (dir.openSegments_subset hs)
        · exact (hnames s hs).no_nul

section Folder

variable {isAbsolute : Bool} {front : List String} {start out : Place} {folder name : String}
  (hup : ".." ∉ front) (hfolder : IsPlainName folder) (hname : IsPlainName name)
  (hstart : d.start ⟨isAbsolute, front ++ [folder, name]⟩ = .ok start)
  (hwalk : front.foldlM d.enter start = .ok out) (hdir : d.HasDir out)
  (hempty : ∀ q, q.Below out → d.kind? q = none)
include hup hfolder hname hstart hwalk hdir hempty

theorem makeParent_folder :
    ∃ e, makeParent ⟨isAbsolute, front ++ [folder, name]⟩ d = (.ok (), e) ∧
      d.Paves (out ++ [folder]) e ∧ e.HasDir (out ++ [folder]) := by
  have hplace : out = start ++ Place.named front := ((Disk.walk_eq_ok_iff hup).mp hwalk).1
  have hends : (⟨isAbsolute, front ++ [folder]⟩ : Path).EndsIn front folder 0 :=
    ⟨rfl, hfolder.fileName.ofSegment?_eq⟩
  have hstraight : (⟨isAbsolute, front ++ [folder]⟩ : Path).Straight := by
    have hne := (Component.ofSegment?_name_iff.mp hends.name).2.2
    simpa [Path.Straight, hup] using hne.symm
  have hparent : (⟨isAbsolute, front ++ [folder, name]⟩ : Path).parent? =
      some ⟨isAbsolute, front ++ [folder]⟩ := by
    simp [Path.parent?, Path.meantReverse, Path.isMeant, hfolder.fileName.ofSegment?_eq,
      hname.fileName.ofSegment?_eq]
  have hprecedes := Path.parent?_precedes hparent
  have hstart' := Disk.start_of_precedes hprecedes (by simp [Path.isEmpty]) hstart
  have hstep : d.stepError out folder = none := by
    simp [Disk.stepError, Disk.kind?_eq_dir_iff.mpr hdir, Nat.not_lt.mpr hfolder.short]
  have hfresh : d.kind? (out ++ [folder]) = none := hempty _ (Place.below_append (by simp))
  have hmake := makeDirs_eq hends hup hstart' (FileTree.HasDir.of_append (hplace ▸ hdir))
    fun content => by simp [← hplace, hfresh]
  rw [Disk.obstacle?_append, Disk.obstacle?_of_walk hwalk, Place.foldl_follow hup, ← hplace,
    Disk.obstacle?_of_step hstep] at hmake
  have hfolderplace : (⟨isAbsolute, front ++ [folder]⟩ : Path).normalize? d.cwd =
      some (out ++ [folder]) := by
    rw [hstraight.normalize? (by simp [Path.isEmpty]), ← (Disk.origin_of_start hstart').2,
      hends.named_segments, ← List.append_assoc, hplace]
  have hpaves := makeDirs_paves hstraight hfolderplace
  cases hmade : makeDirs ⟨isAbsolute, front ++ [folder]⟩ d with
  | mk r e =>
    rw [hmade] at hmake hpaves
    obtain rfl : r = .ok () := hmake
    obtain ⟨found, hfind, hthere⟩ :=
      Disk.isDir_eq_true_iff.mp (isDir_of_makeDirs hmade (by simp [Path.isEmpty]))
    have hfound := Disk.normalize?_of_find hfind
    rw [hpaves.cwd_eq, hfolderplace] at hfound
    obtain rfl := Option.some.inj hfound
    refine ⟨e, ?_, hpaves, hthere⟩
    rw [makeParent, hparent]
    exact hmade

theorem exists_writeFile (content : ByteArray) :
    ∃ d', writeFile ⟨isAbsolute, front ++ [folder, name]⟩ content d = (.ok (), d') := by
  obtain ⟨e, hparent, hpaves, hthere⟩ :=
    makeParent_folder hup hfolder hname hstart hwalk hdir hempty
  obtain ⟨hplace, hshort, -⟩ := (Disk.walk_eq_ok_iff hup).mp hwalk
  have hfile : e.kind? (out ++ [folder] ++ [name]) = none := by
    rw [hpaves.kind?_of_not_prefix (Place.not_concat_prefix _ name), List.append_assoc]
    exact hempty _ (Place.below_append (by simp))
  have hfind : e.find ⟨isAbsolute, front ++ [folder, name]⟩ = .ok (out ++ [folder] ++ [name]) := by
    rw [Disk.find, Disk.start_congr hpaves.cwd_eq, hstart]
    have hfoldername := hfolder.fileName.ofSegment?_eq
    have hlastname := hname.fileName.ofSegment?_eq
    refine (Disk.walk_eq_ok_iff ?_).mpr ⟨?_, ?_, .inr ?_⟩
    · simpa [hup] using ⟨(Component.ofSegment?_name_iff.mp hfoldername).2.2.symm,
        (Component.ofSegment?_name_iff.mp hlastname).2.2.symm⟩
    · simp [hplace, Place.named, hfoldername, hlastname]
    · simpa [or_imp, forall_and] using ⟨hshort, hfolder.short, hname.short⟩
    · rw [List.append_cons, List.dropLast_concat, Place.named_append,
        Place.named_of_name hfoldername, ← List.append_assoc, ← hplace]
      exact hthere
  refine ⟨{ e with files := e.files.put (out ++ [folder] ++ [name]) (.file content) }, ?_⟩
  rw [writeFile_eq, bind_apply, hparent]
  simp only [change_apply, Disk.write, hfind, Disk.kind?_eq_none_iff.mp hfile, bind, Except.bind]
  rfl

end Folder

end StaticSite.Work
