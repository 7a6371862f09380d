import StaticSite.Proofs.Disk.Evolve
import StaticSite.Proofs.Disk.Sorted

namespace StaticSite

namespace FileTree

inductive Kind
  | file (content : ByteArray)
  | dir

def kind : FileTree → Kind
  | .file content => .file content
  | .dir _ => .dir

def kind? (t : FileTree) (place : List String) : Option Kind := (t.get? place).map kind

variable {t u : FileTree} {p q : List String}

theorem kind?_eq_dir_iff : t.kind? p = some .dir ↔ t.HasDir p := by
  unfold kind? HasDir
  cases t.get? p with
  | none => simp
  | some u => cases u <;> simp [kind]

theorem kind?_eq_file_iff {content : ByteArray} :
    t.kind? p = some (.file content) ↔ t.file? p = some content := by
  rw [file?_eq_some_iff]
  unfold kind?
  cases t.get? p with
  | none => simp
  | some u => cases u <;> simp [kind]

theorem kind?_eq_none_iff : t.kind? p = none ↔ t.get? p = none := by simp [kind?]

theorem kind?_nil (t : FileTree) : t.kind? [] = some t.kind := by cases t <;> rfl

theorem kind?_file_cons (content : ByteArray) (n : String) (ns : List String) :
    (file content).kind? (n :: ns) = none := rfl

theorem kind?_dir_cons (entries : List (String × FileTree)) (n : String) (ns : List String) :
    (dir entries).kind? (n :: ns) = (entries.lookup n).bind fun t => t.kind? ns := by
  cases h : entries.lookup n <;> simp [kind?, get?, h]

theorem kind?_empty_cons (n : String) (ns : List String) : empty.kind? (n :: ns) = none := rfl

theorem hasDir_of_kind?_append {n : String} {ns : List String} {k : Kind}
    (h : t.kind? (p ++ n :: ns) = some k) : t.HasDir p := by
  obtain ⟨v, hv, -⟩ := Option.map_eq_some_iff.mp h
  rw [get?_append] at hv
  obtain ⟨w, hw, hv⟩ := Option.bind_eq_some_iff.mp hv
  cases w with
  | dir entries => exact ⟨entries, hw⟩
  | file content => cases hv

theorem hasDir_of_prefix {k : Kind} (h : t.kind? q = some k) (hp : p <+: q) (hne : p ≠ q) :
    t.HasDir p := by
  obtain ⟨_ | ⟨n, ns⟩, rfl⟩ := hp
  · simp at hne
  · exact hasDir_of_kind?_append h

theorem kind?_put (h : ∀ r, r <+: p → r ≠ p → t.HasDir r) (new : FileTree) (q : List String) :
    (t.put p new).kind? q = if p <+: q then new.kind? (q.drop p.length) else t.kind? q := by
  induction p generalizing t q with
  | nil => cases t <;> simp [FileTree.put]
  | cons n ns ih =>
    obtain ⟨entries, he⟩ := h [] List.nil_prefix (by simp)
    obtain rfl : t = .dir entries := by cases t <;> exact Option.some.inj he
    cases q with
    | nil => simp [FileTree.put, kind?_nil, kind]
    | cons m ms =>
      rw [FileTree.put, kind?_dir_cons, kind?_dir_cons, lookup_changeEntry]
      by_cases hm : m = n
      · subst hm
        simp only [if_true, Option.bind_some, List.cons_prefix_cons, true_and, List.length_cons,
          List.drop_succ_cons]
        cases hu : entries.lookup m with
        | some u =>
          refine ih (fun r hr hne => ?_) ms
          obtain ⟨v, hv, hdir⟩ := hasDir_dir_cons.mp
            (h (m :: r) (List.cons_prefix_cons.mpr ⟨rfl, hr⟩) (by simpa using hne))
          rwa [← Option.some.inj (hu.symm.trans hv)] at hdir
        | none =>
          -- The place is in a directory, so that one is where the missing entry belongs.
          obtain rfl : ns = [] := by
            by_contra hns
            obtain ⟨v, hv, -⟩ := hasDir_dir_cons.mp
              (h [m] (by simp) (by simpa using Ne.symm hns))
            simp [hu] at hv
          simp [FileTree.put]
      · simp [hm, List.cons_prefix_cons, Ne.symm hm]

theorem kind?_erase (hp : p ≠ []) (q : List String) :
    (t.erase p).kind? q = if p <+: q then none else t.kind? q := by
  induction p generalizing t q with
  | nil => exact absurd rfl hp
  | cons n ns ih =>
    cases t with
    | file content =>
      cases q with
      | nil => cases ns <;> simp [FileTree.erase]
      | cons m ms => cases ns <;> simp [FileTree.erase, kind?_file_cons]
    | dir entries =>
      cases q with
      | nil => cases ns <;> simp [FileTree.erase, kind?_nil, kind]
      | cons m ms =>
        cases ns with
        | nil =>
          rw [FileTree.erase, kind?_dir_cons, kind?_dir_cons, lookup_filter_ne]
          by_cases hm : m = n
          · simp [hm]
          · simp [hm, List.cons_prefix_cons, Ne.symm hm]
        | cons n' ns =>
          rw [FileTree.erase, kind?_dir_cons, kind?_dir_cons, lookup_map_erase]
          by_cases hm : m = n
          · subst hm
            simp only [if_true, List.cons_prefix_cons, true_and]
            cases entries.lookup m with
            | none => simp
            | some u => simpa [List.cons_prefix_cons] using ih (by simp) ms
          · simp [hm, List.cons_prefix_cons, Ne.symm hm]

theorem files_congr (ht : t.WellFormed) (hu : u.WellFormed) (h : ∀ q, t.kind? q = u.kind? q) :
    t.files = u.files := by
  refine files_eq_of_file? ht hu fun names => Option.ext fun content => ?_
  rw [← kind?_eq_file_iff, ← kind?_eq_file_iff, h]

end FileTree

namespace Disk

open FileTree (Kind)

def kind? (d : Disk) (place : Place) : Option Kind := d.files.kind? place

variable {d d' : Disk} {place : Place}

theorem kind?_eq_dir_iff : d.kind? place = some .dir ↔ d.HasDir place := FileTree.kind?_eq_dir_iff

theorem kind?_eq_file_iff {content : ByteArray} :
    d.kind? place = some (.file content) ↔ d.file? place = some content := FileTree.kind?_eq_file_iff

theorem kind?_eq_none_iff : d.kind? place = none ↔ d.files.get? place = none :=
  FileTree.kind?_eq_none_iff

theorem hasDir_of_no_file (h : d.kind? place ≠ none)
    (hfile : ∀ content, d.kind? place ≠ some (.file content)) : d.HasDir place := by
  cases hk : d.kind? place with
  | none => exact absurd hk h
  | some k =>
    cases k with
    | file content => exact absurd hk (hfile content)
    | dir => exact kind?_eq_dir_iff.mp hk

theorem hasDir_congr (h : d'.kind? place = d.kind? place) : d'.HasDir place ↔ d.HasDir place := by
  rw [← kind?_eq_dir_iff, ← kind?_eq_dir_iff, h]

def stepError (d : Disk) (place : Place) (segment : String) : Option DiskError :=
  match d.kind? place with
  | none => some .notFound
  | some (.file _) => some .notDirectory
  | some .dir => if segment.utf8ByteSize > nameLimit then some .nameTooLong else none

theorem enter_eq (d : Disk) (place : Place) (s : String) :
    d.enter place s = match d.stepError place s with
      | none => .ok (place.follow s)
      | some e => .error e := by
  unfold enter entries stepError kind? FileTree.kind?
  cases d.files.get? place with
  | none => rfl
  | some t =>
    cases t with
    | file content => rfl
    | dir entries =>
      simp only [Option.map_some, FileTree.kind, bind, Except.bind]
      split <;> rfl

theorem enter_congr (h : d'.kind? place = d.kind? place) (s : String) :
    d'.enter place s = d.enter place s := by
  rw [enter_eq, enter_eq, stepError, stepError, h]

theorem start_congr (h : d'.cwd = d.cwd) (p : Path) : d'.start p = d.start p := by
  rw [start, start, h]

theorem isDir_eq_true_iff {p : Path} :
    d.isDir p = true ↔ ∃ place, d.find p = .ok place ∧ d.HasDir place := by
  rw [isDir, Option.any_eq_true]
  simp only [stat?_eq_some_iff]
  constructor
  · rintro ⟨t, ⟨place, hfind, hget⟩, hdir⟩
    cases t with
    | file content => cases hdir
    | dir entries => exact ⟨place, hfind, entries, hget⟩
  · rintro ⟨place, hfind, entries, hget⟩
    exact ⟨_, ⟨place, hfind, hget⟩, rfl⟩

theorem isFile_eq_true_iff {p : Path} :
    d.isFile p = true ↔ ∃ place content, d.find p = .ok place ∧ d.file? place = some content := by
  rw [isFile, Option.any_eq_true]
  simp only [stat?_eq_some_iff, file?, FileTree.file?_eq_some_iff]
  constructor
  · rintro ⟨t, ⟨place, hfind, hget⟩, hfile⟩
    cases t with
    | file content => exact ⟨place, content, hfind, hget⟩
    | dir entries => cases hfile
  · rintro ⟨place, content, hfind, hget⟩
    exact ⟨_, ⟨place, hfind, hget⟩, rfl⟩

theorem contains_eq_true_iff {p : Path} :
    d.contains p = true ↔ ∃ place, d.find p = .ok place ∧ d.kind? place ≠ none := by
  rw [contains, Option.isSome_iff_exists]
  simp only [stat?_eq_some_iff, ne_eq, kind?_eq_none_iff, Option.ne_none_iff_exists']
  exact ⟨fun ⟨t, place, h⟩ => ⟨place, h.1, t, h.2⟩, fun ⟨place, hfind, t, h⟩ => ⟨t, place, hfind, h⟩⟩

theorem read_eq (d : Disk) (p : Path) :
    d.read p = d.find p >>= fun place => match d.kind? place with
      | none => .error .notFound
      | some (.file content) => .ok content
      | some .dir => .error .isDirectory := by
  unfold read stat kind? FileTree.kind?
  cases d.find p with
  | error e => rfl
  | ok place =>
    simp only [bind, Except.bind]
    cases d.files.get? place with
    | none => rfl
    | some t => cases t <;> rfl

theorem filesBelow_congr {p : Path} (hd : d.files.WellFormed) (hd' : d'.files.WellFormed)
    (hthere : ∀ place, d'.find p = .ok place → d'.HasDir place → d.find p = .ok place)
    (hthere' : ∀ place, d.find p = .ok place → d.HasDir place → d'.find p = .ok place)
    (h : ∀ place, p.normalize? d.cwd = some place →
      ∀ names, d'.kind? (place ++ names) = d.kind? (place ++ names)) :
    d'.filesBelow p = d.filesBelow p := by
  have hbelow : ∀ {e : Disk}, (∀ place, e.find p = .ok place → ¬e.HasDir place) →
      e.filesBelow p = [] := by
    intro e hnone
    unfold filesBelow
    split
    · next entries hstat =>
      obtain ⟨place, hfind, hget⟩ := stat?_eq_some_iff.mp hstat
      exact absurd ⟨entries, hget⟩ (hnone place hfind)
    · rfl
  by_cases hdir : ∃ place, d.find p = .ok place ∧ d.HasDir place
  · obtain ⟨place, hfind, hdir⟩ := hdir
    have hkind := h place (normalize?_of_find hfind)
    have hroot : d'.kind? place = d.kind? place := by simpa using hkind []
    obtain ⟨entries, hget⟩ := hdir
    obtain ⟨entries', hget'⟩ := (hasDir_congr hroot).mpr ⟨entries, hget⟩
    have hstat : d.stat? p = some (.dir entries) := stat?_eq_some_iff.mpr ⟨place, hfind, hget⟩
    have hstat' : d'.stat? p = some (.dir entries') :=
      stat?_eq_some_iff.mpr ⟨place, hthere' place hfind ⟨entries, hget⟩, hget'⟩
    simp only [filesBelow, hstat, hstat']
    refine FileTree.files_congr (hd'.get? hget').1 (hd.get? hget).1 fun q => ?_
    have hq := hkind q
    simp only [kind?, FileTree.kind?, FileTree.get?_append, hget, hget', Option.bind_some] at hq
    exact hq
  · rw [hbelow fun place hfind hdir' => hdir ⟨place, hfind, hdir'⟩, hbelow]
    intro place hfind hdir'
    have hfind' := hthere place hfind hdir'
    have hroot : d'.kind? place = d.kind? place := by
      simpa using h place (normalize?_of_find hfind') []
    exact hdir ⟨place, hfind', (hasDir_congr hroot).mp hdir'⟩

theorem hasDir_of_dropLast {place r : Place} (h : place = [] ∨ d.HasDir place.dropLast)
    (hr : r <+: place) (hne : r ≠ place) : d.HasDir r := by
  obtain rfl | h := h
  · exact absurd (List.prefix_nil.mp hr) hne
  · refine h.of_prefix ?_
    cases place using List.reverseRecOn with
    | nil => exact absurd (List.prefix_nil.mp hr) hne
    | append_singleton above name =>
      rw [List.dropLast_concat]
      exact (List.prefix_concat_iff.mp hr).resolve_left hne

theorem kind?_put (h : place = [] ∨ d.HasDir place.dropLast) (new : FileTree) (q : Place) :
    kind? { d with files := d.files.put place new } q =
      if place <+: q then new.kind? (q.drop place.length) else d.kind? q :=
  FileTree.kind?_put (fun _ => hasDir_of_dropLast h) new q

theorem kind?_file_drop {content : ByteArray} {q : Place} (h : place <+: q) :
    (FileTree.file content).kind? (q.drop place.length) =
      if q = place then some (.file content) else none := by
  obtain ⟨_ | ⟨n, ns⟩, rfl⟩ := h
  · simp [FileTree.kind?_nil, FileTree.kind]
  · simp [FileTree.kind?_file_cons]

theorem kind?_empty_drop {q : Place} (h : place <+: q) :
    FileTree.empty.kind? (q.drop place.length) = if q = place then some .dir else none := by
  obtain ⟨_ | ⟨n, ns⟩, rfl⟩ := h
  · simp [FileTree.kind?_nil, FileTree.kind, FileTree.empty]
  · simp [FileTree.kind?_empty_cons]

theorem kind?_eq_none_of_above {q : Place} (hdir : ¬d.HasDir place) (h : place <+: q)
    (hne : q ≠ place) : d.kind? q = none := by
  by_contra hk
  obtain ⟨k, hk⟩ := Option.ne_none_iff_exists'.mp hk
  exact hdir (FileTree.hasDir_of_prefix hk h (Ne.symm hne))

theorem kind?_append_of_none (h : d.kind? place = none) (names : List String) :
    d.kind? (place ++ names) = none := by
  rw [kind?_eq_none_iff] at h ⊢
  rw [FileTree.get?_append, h]
  rfl

theorem ne_of_outside {q : Place} (h : ¬place <+: q) : q ≠ place := by
  rintro rfl
  exact h (List.prefix_refl q)

theorem kind?_of_makeDir {p : Path} (h : d.makeDir p = .ok d') :
    ∃ place, p.normalize? d.cwd = some place ∧ d.kind? place = none ∧ d.HasDir place.dropLast ∧
      ∀ q, d'.kind? q = if q = place then some .dir else d.kind? q := by
  obtain ⟨⟨above, last⟩, hparent, h⟩ := exists_of_bind_eq_ok h
  simp only at h
  split at h
  · next name hlast =>
    obtain ⟨rfl, -, hdir, hplace⟩ := parent_eq_ok hparent hlast
    split at h
    · cases h
    · next hnone =>
      obtain rfl := Except.ok.inj h
      have hnone : d.kind? (above ++ [name]) = none := kind?_eq_none_iff.mpr (by simpa using hnone)
      have habove : d.HasDir (above ++ [name]).dropLast := by rwa [List.dropLast_concat]
      refine ⟨_, hplace, hnone, habove, fun q => ?_⟩
      rw [kind?_put (.inr habove)]
      split
      · next hq =>
        rw [kind?_empty_drop hq]
        split
        · rfl
        · next hne =>
          have hnodir : ¬d.HasDir (above ++ [name]) := by simp [← kind?_eq_dir_iff, hnone]
          exact (kind?_eq_none_of_above hnodir hq hne).symm
      · next hq => exact (if_neg (ne_of_outside hq)).symm
  · cases h

theorem kind?_of_write {p : Path} {content : ByteArray} (h : d.write p content = .ok d') :
    ∃ place, d.find p = .ok place ∧ ¬d.HasDir place ∧
      ∀ q, d'.kind? q = if q = place then some (.file content) else d.kind? q := by
  obtain ⟨place, hfind, hdir, rfl⟩ := write_eq_ok h
  refine ⟨place, hfind, hdir, fun q => ?_⟩
  rw [kind?_put (hasDir_dropLast_of_find hfind)]
  split
  · next hq =>
    rw [kind?_file_drop hq]
    split
    · rfl
    · next hne => exact (kind?_eq_none_of_above hdir hq hne).symm
  · next hq => exact (if_neg (ne_of_outside hq)).symm

theorem kind?_clear {p : Path} (hfind : d.find p = .ok place) (q : Place) :
    kind? { d with files := d.files.put place .empty } q =
      if place <+: q then if q = place then some .dir else none else d.kind? q := by
  rw [kind?_put (hasDir_dropLast_of_find hfind)]
  split
  · next hq => exact kind?_empty_drop hq
  · rfl

theorem kind?_of_removeDir {p : Path} (h : d.removeDir p = .ok d') :
    ∃ place, p.normalize? d.cwd = some place ∧ d.HasDir place ∧
      ∀ q, d'.kind? q = if place <+: q then none else d.kind? q := by
  obtain ⟨⟨above, last⟩, hparent, h⟩ := exists_of_bind_eq_ok h
  simp only at h
  split at h
  · next name hlast =>
    obtain ⟨rfl, -, -, hplace⟩ := parent_eq_ok hparent hlast
    obtain ⟨entries, he, h⟩ := exists_of_bind_eq_ok h
    cases entries with
    | cons e rest => cases h
    | nil =>
      obtain rfl := Except.ok.inj h
      exact ⟨_, hplace, ⟨[], entries_eq_ok_iff.mp he⟩, FileTree.kind?_erase (by simp)⟩
  · cases h
  · cases h

end Disk

end StaticSite
