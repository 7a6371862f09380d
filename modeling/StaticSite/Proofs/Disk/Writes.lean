import StaticSite.Proofs.Disk.Work

namespace StaticSite.Work

def writeAll (os : List (Path × ByteArray)) : Work DiskError Unit :=
  os.forM fun o => writeFile o.1 o.2

/-- None of the later files has another content at the same place. -/
def Outlasts (cwd : Place) (o : Path × ByteArray) (later : List (Path × ByteArray)) : Prop :=
  ∀ o' ∈ later, o'.1.normalize? cwd = o.1.normalize? cwd → o'.2 = o.2

theorem outlasts_self (cwd : Place) (o : Path × ByteArray) : Outlasts cwd o [o] := by
  intro o' ho' _
  rw [List.mem_singleton.mp ho']

theorem Outlasts.append {cwd : Place} {o : Path × ByteArray} {os os' : List (Path × ByteArray)}
    (h : Outlasts cwd o os) (h' : Outlasts cwd o os') : Outlasts cwd o (os ++ os') :=
  List.forall_mem_append.mpr ⟨h, h'⟩

variable {o : Path × ByteArray} {os before after : List (Path × ByteArray)} {d d' d'' : Disk}

theorem writeAll_map (f : α → Path × ByteArray) (as : List α) :
    writeAll (as.map f) = as.forM fun a => writeFile (f a).1 (f a).2 := List.forM_map

theorem writeAll_singleton (o : Path × ByteArray) : writeAll [o] = writeFile o.1 o.2 :=
  bind_pure_unit

theorem writeAll_cons_eq_ok (h : writeAll (o :: os) d = (.ok (), d'')) :
    ∃ d', writeFile o.1 o.2 d = (.ok (), d') ∧ writeAll os d' = (.ok (), d'') := by
  obtain ⟨_, d', ho, hos⟩ := exists_of_bind_eq_ok h
  exact ⟨d', ho, hos⟩

theorem writeAll_append (h : writeAll before d = (.ok (), d'))
    (h' : writeAll after d' = (.ok (), d'')) : writeAll (before ++ after) d = (.ok (), d'') := by
  induction before generalizing d with
  | nil =>
    cases h
    exact h'
  | cons o os ih =>
    obtain ⟨d₁, ho, hos⟩ := writeAll_cons_eq_ok h
    change (writeFile o.1 o.2 >>= fun _ => writeAll (os ++ after)) d = _
    rw [bind_apply, ho]
    exact ih hos

theorem exists_of_writeAll_append (h : writeAll (before ++ after) d = (.ok (), d'')) :
    ∃ d', writeAll before d = (.ok (), d') ∧ writeAll after d' = (.ok (), d'') := by
  induction before generalizing d with
  | nil => exact ⟨d, rfl, h⟩
  | cons o os ih =>
    obtain ⟨d₁, ho, hos⟩ := writeAll_cons_eq_ok h
    obtain ⟨d', hos, hafter⟩ := ih hos
    refine ⟨d', ?_, hafter⟩
    change (writeFile o.1 o.2 >>= fun _ => writeAll os) d = _
    rw [bind_apply, ho]
    exact hos

theorem writeAll_evolves (h : writeAll os d = (.ok (), d')) :
    d.Evolves (fun place => ∃ o ∈ os, d'.find o.1 = .ok place) (fun _ => False) d' := by
  induction os generalizing d with
  | nil =>
    cases h
    exact .refl _
  | cons o os ih =>
    obtain ⟨d₁, ho, hos⟩ := writeAll_cons_eq_ok h
    obtain ⟨place, hfind, -, -, hevolves⟩ := writeFile_eq_ok ho
    have hrest := ih hos
    refine (hevolves.mono ?_ fun _ => id).trans (hrest.mono ?_ fun _ => id)
    · rintro _ rfl
      exact ⟨o, List.mem_cons_self, hrest.find_eq hfind⟩
    · rintro q ⟨o', ho', hfind'⟩
      exact ⟨o', List.mem_cons_of_mem o ho', hfind'⟩

theorem file?_of_writeAll (h : writeAll os d = (.ok (), d')) {place : Place} {content : ByteArray}
    (hfile : d.file? place = some content) :
    d'.file? place = some content ∨
      ∃ o ∈ os, d'.find o.1 = .ok place ∧ d'.file? place = some o.2 := by
  -- The content is general, since a write at the place gives the rest another one to keep.
  induction os generalizing d content with
  | nil =>
    cases h
    exact .inl hfile
  | cons o os ih =>
    obtain ⟨d₁, ho, hrest⟩ := writeAll_cons_eq_ok h
    obtain ⟨place', hfind, -, hwritten, hevolves⟩ := writeFile_eq_ok ho
    by_cases hplace : place = place'
    · subst hplace
      refine .inr ?_
      obtain hlast | ⟨o', ho', hlater⟩ := ih hrest hwritten
      · exact ⟨o, List.mem_cons_self, (writeAll_evolves hrest).find_eq hfind, hlast⟩
      · exact ⟨o', List.mem_cons_of_mem o ho', hlater⟩
    · obtain hsame | ⟨o', ho', hlater⟩ := ih hrest ((hevolves.file?_eq place hplace).trans hfile)
      · exact .inl hsame
      · exact .inr ⟨o', List.mem_cons_of_mem o ho', hlater⟩

theorem find_of_writeAll (h : writeAll os d = (.ok (), d')) (ho : o ∈ os) :
    ∃ place, d'.find o.1 = .ok place ∧ (d'.file? place).isSome := by
  obtain ⟨before, after, rfl⟩ := List.append_of_mem ho
  obtain ⟨d₁, -, h⟩ := exists_of_writeAll_append h
  obtain ⟨d₂, ho, hrest⟩ := writeAll_cons_eq_ok h
  obtain ⟨place, hfind, -, hwritten, -⟩ := writeFile_eq_ok ho
  refine ⟨place, (writeAll_evolves hrest).find_eq hfind, ?_⟩
  obtain hfile | ⟨o', -, -, hfile⟩ := file?_of_writeAll hrest hwritten <;> simp [hfile]

theorem read_of_writeAll (h : writeAll (before ++ os) d = (.ok (), d')) (ho : o ∈ os)
    (hlasts : Outlasts d'.cwd o os) : d'.read o.1 = .ok o.2 := by
  obtain ⟨d₁, -, h⟩ := exists_of_writeAll_append h
  obtain ⟨init, after, rfl⟩ := List.append_of_mem ho
  obtain ⟨d₂, -, h⟩ := exists_of_writeAll_append h
  obtain ⟨d₃, ho, hrest⟩ := writeAll_cons_eq_ok h
  obtain ⟨place, hfind, -, hwritten, -⟩ := writeFile_eq_ok ho
  have hfind' := (writeAll_evolves hrest).find_eq hfind
  refine Disk.read_eq_ok_iff.mpr ⟨place, hfind', ?_⟩
  obtain hfile | ⟨o', ho', hsame, hfile⟩ := file?_of_writeAll hrest hwritten
  · exact hfile
  · rw [hfile, hlasts o' (by simp [ho'])]
    rw [Disk.normalize?_of_find hsame, Disk.normalize?_of_find hfind']

end StaticSite.Work
