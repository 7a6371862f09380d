import StaticSite.Disk.Basic
import StaticSite.Proofs.Disk.Tree
import StaticSite.Proofs.Outcome
import StaticSite.Proofs.Path.Place

namespace StaticSite.Disk

def file? (d : Disk) (place : Place) : Option ByteArray := d.files.file? place

def HasDir (d : Disk) (place : Place) : Prop := d.files.HasDir place

variable {d : Disk}

theorem entries_eq_ok_iff {place : Place} {entries : List (String × FileTree)} :
    d.entries place = .ok entries ↔ d.files.get? place = some (.dir entries) := by
  unfold Disk.entries
  split <;> simp_all

theorem enter_eq_ok_iff {place next : Place} {s : String} :
    d.enter place s = .ok next ↔
      d.HasDir place ∧ s.utf8ByteSize ≤ nameLimit ∧ place.follow s = next := by
  constructor
  · intro h
    obtain ⟨entries, he, h⟩ := exists_of_bind_eq_ok h
    simp only at h
    split_ifs at h with hs
    · cases h
    · exact ⟨⟨entries, entries_eq_ok_iff.mp he⟩, Nat.not_lt.mp hs, Except.ok.inj h⟩
  · rintro ⟨⟨entries, he⟩, hs, rfl⟩
    rw [enter, entries_eq_ok_iff.mpr he]
    simp only [bind, Except.bind, Nat.not_lt.mpr hs, if_false]
    rfl

theorem origin_of_start {p : Path} {place : Place} (h : d.start p = .ok place) :
    p.isEmpty = false ∧ place = p.origin d.cwd := by
  unfold start at h
  split at h
  · cases h
  · next hempty =>
    split at h
    · cases h
    · exact ⟨by simpa using hempty, (Except.ok.inj h).symm⟩

theorem walk_eq {segments : List String} {start place : Place}
    (h : segments.foldlM d.enter start = .ok place) :
    segments.foldl Place.follow start = place := by
  induction segments generalizing start with
  | nil => exact Except.ok.inj h
  | cons s rest ih =>
    rw [List.foldlM_cons] at h
    obtain ⟨next, hnext, h⟩ := exists_of_bind_eq_ok h
    obtain ⟨-, -, rfl⟩ := enter_eq_ok_iff.mp hnext
    exact ih h

theorem hasDir_dropLast_of_walk {segments : List String} {start place : Place}
    (h : segments.foldlM d.enter start = .ok place) (hne : segments ≠ []) :
    d.HasDir place.dropLast := by
  obtain ⟨init, last, rfl⟩ := List.eq_nil_or_concat segments |>.resolve_left hne
  rw [List.concat_eq_append, List.foldlM_append] at h
  obtain ⟨mid, -, h⟩ := exists_of_bind_eq_ok h
  obtain ⟨next, hnext, h⟩ := exists_of_bind_eq_ok h
  cases h
  obtain ⟨hdir, -, rfl⟩ := enter_eq_ok_iff.mp hnext
  obtain heq | heq | ⟨-, heq⟩ := mid.follow_cases last
  · rw [heq]
    exact hdir.of_prefix (List.dropLast_prefix _)
  · rw [heq]
    exact hdir.of_prefix ((List.dropLast_prefix _).trans (List.dropLast_prefix _))
  · rw [heq, List.dropLast_concat]
    exact hdir

theorem names_of_walk {segments : List String} {start place : Place}
    (h : segments.foldlM d.enter start = .ok place) (hspelled : ∀ s ∈ segments, '/' ∉ s.toList)
    (hstart : ∀ n ∈ start, IsFileName n) : ∀ n ∈ place, IsFileName n := by
  induction segments generalizing start with
  | nil =>
    cases h
    exact hstart
  | cons s rest ih =>
    rw [List.foldlM_cons] at h
    rw [List.forall_mem_cons] at hspelled
    obtain ⟨next, hnext, h⟩ := exists_of_bind_eq_ok h
    obtain ⟨-, -, rfl⟩ := enter_eq_ok_iff.mp hnext
    refine ih h hspelled.2 ?_
    obtain heq | heq | ⟨hs, heq⟩ := start.follow_cases s
    · rwa [heq]
    · rw [heq]
      exact fun n hn => hstart n (List.dropLast_subset _ hn)
    · rw [heq]
      intro n hn
      obtain hn | hn := List.mem_append.mp hn
      · exact hstart n hn
      · obtain rfl := List.mem_singleton.mp hn
        exact ⟨hs, hspelled.1⟩

theorem walk_of_find {p : Path} {place : Place} (h : d.find p = .ok place) :
    p.isEmpty = false ∧ p.segments.foldlM d.enter (p.origin d.cwd) = .ok place := by
  obtain ⟨start, hstart, h⟩ := exists_of_bind_eq_ok h
  obtain ⟨hempty, rfl⟩ := origin_of_start hstart
  exact ⟨hempty, h⟩

theorem normalize?_of_find {p : Path} {place : Place} (h : d.find p = .ok place) :
    p.normalize? d.cwd = some place := by
  obtain ⟨hempty, h⟩ := walk_of_find h
  exact Path.normalize?_eq_some_iff.mpr ⟨hempty, walk_eq h⟩

theorem eq_nil_of_segments {p : Path} {place : Place} (h : d.find p = .ok place)
    (hs : p.segments = []) : place = [] := by
  obtain ⟨hempty, h⟩ := walk_of_find h
  rw [hs] at h
  have habsolute : p.isAbsolute = true := by simpa [Path.isEmpty, hs] using hempty
  simpa [Path.origin, habsolute, eq_comm, pure, Except.pure] using h

theorem hasDir_dropLast_of_find {p : Path} {place : Place} (h : d.find p = .ok place) :
    place = [] ∨ d.HasDir place.dropLast := by
  by_cases hs : p.segments = []
  · exact .inl (eq_nil_of_segments h hs)
  · exact .inr (hasDir_dropLast_of_walk (walk_of_find h).2 hs)

theorem names_of_find {p : Path} {place : Place} (hd : d.files.WellFormed) (hp : p.Spelled)
    (h : d.find p = .ok place) : ∀ n ∈ place, IsFileName n := by
  cases hs : p.segments with
  | nil => simp [eq_nil_of_segments h hs]
  | cons s rest =>
    have hwalk := (walk_of_find h).2
    -- The first step starts at a directory, so the names of that one are names of files.
    have hstart : ∀ n ∈ p.origin d.cwd, IsFileName n := by
      have hfirst := hwalk
      rw [hs, List.foldlM_cons] at hfirst
      obtain ⟨next, hnext, -⟩ := exists_of_bind_eq_ok hfirst
      obtain ⟨⟨entries, he⟩, -⟩ := enter_eq_ok_iff.mp hnext
      exact (hd.get? he).2
    exact names_of_walk hwalk hp hstart

theorem hasDir_of_find_up {p : Path} {place : Place} {init : List String}
    (hs : p.segments = init ++ [".."]) (h : d.find p = .ok place) : d.HasDir place := by
  have hwalk := (walk_of_find h).2
  rw [hs, List.foldlM_append] at hwalk
  obtain ⟨mid, -, hwalk⟩ := exists_of_bind_eq_ok hwalk
  obtain ⟨next, hnext, hwalk⟩ := exists_of_bind_eq_ok hwalk
  cases hwalk
  obtain ⟨hdir, -, rfl⟩ := enter_eq_ok_iff.mp hnext
  exact hdir.of_prefix (List.dropLast_prefix _)

section Grows

variable {d' : Disk} (hdir : ∀ place, d.HasDir place → d'.HasDir place)
include hdir

theorem walk_mono {segments : List String} {start place : Place}
    (h : segments.foldlM d.enter start = .ok place) : segments.foldlM d'.enter start = .ok place := by
  induction segments generalizing start with
  | nil => exact h
  | cons s rest ih =>
    rw [List.foldlM_cons] at h ⊢
    obtain ⟨next, hnext, h⟩ := exists_of_bind_eq_ok h
    obtain ⟨hstart, hs, rfl⟩ := enter_eq_ok_iff.mp hnext
    rw [enter_eq_ok_iff.mpr ⟨hdir _ hstart, hs, rfl⟩]
    exact ih h

theorem find_mono {p : Path} {place : Place} (hcwd : d'.cwd = d.cwd) (h : d.find p = .ok place) :
    d'.find p = .ok place := by
  obtain ⟨start, hstart, h⟩ := exists_of_bind_eq_ok h
  have hstart' : d'.start p = .ok start := by
    rw [← hstart]
    unfold Disk.start
    rw [hcwd]
  rw [find, hstart']
  exact walk_mono hdir h

end Grows

theorem stat_eq_ok_iff {p : Path} {t : FileTree} :
    d.stat p = .ok t ↔ ∃ place, d.find p = .ok place ∧ d.files.get? place = some t := by
  rw [stat, bind_eq_ok_iff]
  refine exists_congr fun place => and_congr_right fun _ => ?_
  split
  · next u hu => simp [hu, pure, Except.pure]
  · next hu => simp [hu, throw, throwThe, MonadExceptOf.throw]

theorem stat?_eq_some_iff {p : Path} {t : FileTree} :
    d.stat? p = some t ↔ ∃ place, d.find p = .ok place ∧ d.files.get? place = some t := by
  rw [← stat_eq_ok_iff, stat?]
  cases d.stat p <;> simp [Except.toOption]

theorem read_eq_ok_iff {p : Path} {content : ByteArray} :
    d.read p = .ok content ↔ ∃ place, d.find p = .ok place ∧ d.file? place = some content := by
  simp only [read, bind_eq_ok_iff, stat_eq_ok_iff, file?, FileTree.file?_eq_some_iff]
  constructor
  · rintro ⟨t, ⟨place, hfind, hget⟩, h⟩
    cases t with
    | file c => exact ⟨place, hfind, Except.ok.inj h ▸ hget⟩
    | dir entries => cases h
  · rintro ⟨place, hfind, hget⟩
    exact ⟨_, ⟨place, hfind, hget⟩, rfl⟩

theorem read_unique {p q : Path} {a b : ByteArray} (hp : d.read p = .ok a) (hq : d.read q = .ok b)
    (h : p.normalize? d.cwd = q.normalize? d.cwd) : a = b := by
  obtain ⟨place, hfind, hfile⟩ := read_eq_ok_iff.mp hp
  obtain ⟨place', hfind', hfile'⟩ := read_eq_ok_iff.mp hq
  rw [normalize?_of_find hfind, normalize?_of_find hfind'] at h
  obtain rfl := Option.some.inj h
  exact Option.some.inj (hfile.symm.trans hfile')

theorem mem_filesBelow {p : Path} (hd : d.files.WellFormed) {names : List String}
    {content : ByteArray} : (names, content) ∈ d.filesBelow p ↔
      ∃ place, d.find p = .ok place ∧ d.HasDir place ∧ d.file? (place ++ names) = some content := by
  unfold filesBelow
  constructor
  · intro h
    split at h
    · next entries hstat =>
      obtain ⟨place, hfind, hget⟩ := stat?_eq_some_iff.mp hstat
      refine ⟨place, hfind, ⟨entries, hget⟩, ?_⟩
      rw [(hd.get? hget).1.mem_files, FileTree.file?_eq_some_iff] at h
      rw [file?, FileTree.file?_eq_some_iff, FileTree.get?_append, hget]
      exact h
    · cases h
  · rintro ⟨place, hfind, ⟨entries, hget⟩, hfile⟩
    rw [stat?_eq_some_iff.mpr ⟨place, hfind, hget⟩]
    rw [file?, FileTree.file?_eq_some_iff, FileTree.get?_append, hget] at hfile
    exact (hd.get? hget).1.mem_files.mpr (FileTree.file?_eq_some_iff.mpr hfile)

theorem eq_of_mem_filesBelow {p : Path} (hd : d.files.WellFormed) {names : List String}
    {a b : ByteArray} (ha : (names, a) ∈ d.filesBelow p) (hb : (names, b) ∈ d.filesBelow p) :
    a = b := by
  obtain ⟨place, hfind, -, hfile⟩ := (mem_filesBelow hd).mp ha
  obtain ⟨place', hfind', -, hfile'⟩ := (mem_filesBelow hd).mp hb
  obtain rfl := Except.ok.inj (hfind.symm.trans hfind')
  exact Option.some.inj (hfile.symm.trans hfile')

theorem names_of_mem_filesBelow {p : Path} (hd : d.files.WellFormed)
    {f : List String × ByteArray} (h : f ∈ d.filesBelow p) : ∀ n ∈ f.1, IsFileName n := by
  obtain ⟨place, -, -, hfile⟩ := (mem_filesBelow hd).mp h
  have hnames := (hd.get? (FileTree.file?_eq_some_iff.mp hfile)).2
  exact fun n hn => hnames n (List.mem_append_right _ hn)

theorem select_congr {d' : Disk} {dir : Path} (h : d'.filesBelow dir = d.filesBelow dir)
    (keep : Path → Bool) : d'.select dir keep = d.select dir keep := by
  rw [select, select, h]

end StaticSite.Disk
