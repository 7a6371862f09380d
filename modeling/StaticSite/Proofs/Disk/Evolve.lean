import Mathlib.Data.List.TakeWhile
import StaticSite.Proofs.Disk.Find

namespace StaticSite.Disk

/-- The files outside `F` are what they were, and the directories outside `G` are still there. -/
structure Evolves (F G : Place → Prop) (d d' : Disk) : Prop where
  cwd_eq : d'.cwd = d.cwd
  file?_eq : ∀ place, ¬F place → d'.file? place = d.file? place
  hasDir : ∀ place, ¬G place → d.HasDir place → d'.HasDir place

def Removed (d d' : Disk) (place : Place) : Prop :=
  (d.files.get? place).isSome ∧ d'.files.get? place = none

abbrev Grows : Disk → Disk → Prop := Evolves (fun _ => False) fun _ => False

namespace Evolves

variable {F G F' G' : Place → Prop} {d d' d'' : Disk}

theorem refl (d : Disk) : Evolves F G d d :=
  ⟨rfl, fun _ _ => rfl, fun _ _ h => h⟩

theorem trans (h : Evolves F G d d') (h' : Evolves F G d' d'') : Evolves F G d d'' where
  cwd_eq := h'.cwd_eq.trans h.cwd_eq
  file?_eq place hp := (h'.file?_eq place hp).trans (h.file?_eq place hp)
  hasDir place hp := h'.hasDir place hp ∘ h.hasDir place hp

theorem mono (h : Evolves F G d d') (hF : ∀ place, F place → F' place)
    (hG : ∀ place, G place → G' place) : Evolves F' G' d d' where
  cwd_eq := h.cwd_eq
  file?_eq place hp := h.file?_eq place (mt (hF place) hp)
  hasDir place hp := h.hasDir place (mt (hG place) hp)

theorem find_eq (h : Evolves F (fun _ => False) d d') {p : Path} {place : Place}
    (hp : d.find p = .ok place) : d'.find p = .ok place :=
  find_mono (fun place => h.hasDir place id) h.cwd_eq hp

theorem of_removed (h : Evolves F G d d') (hFG : ∀ place, F place → G place) {place : Place}
    (hplace : d.Removed d' place) : G place := by
  by_contra hG
  obtain ⟨hthere, hgone⟩ := hplace
  obtain ⟨t, ht⟩ := Option.isSome_iff_exists.mp hthere
  cases t with
  | file content =>
    have hfile := (h.file?_eq place (mt (hFG place) hG)).trans (FileTree.file?_eq_some_iff.mpr ht)
    rw [file?, FileTree.file?_eq_some_iff, hgone] at hfile
    cases hfile
  | dir entries =>
    obtain ⟨entries', h'⟩ := h.hasDir place hG ⟨entries, ht⟩
    rw [hgone] at h'
    cases h'

end Evolves

theorem Grows.evolves {F G : Place → Prop} {d d' : Disk} (h : d.Grows d') : Evolves F G d d' :=
  h.mono nofun nofun

theorem foldl_follow_replicate (place : Place) {segments : List String}
    (h : ∀ s ∈ segments, s = "") : segments.foldl Place.follow place = place := by
  induction segments with
  | nil => rfl
  | cons s rest ih =>
    rw [List.forall_mem_cons] at h
    obtain ⟨rfl, h⟩ := h
    exact ih h

theorem segments_of_dropWhile {p : Path} {last : String} {rest : List String}
    (h : p.segments.reverse.dropWhile (· = "") = last :: rest) :
    ∃ n, p.segments = rest.reverse ++ last :: List.replicate n "" := by
  have hsplit := List.takeWhile_append_dropWhile (p := (· = "")) (l := p.segments.reverse)
  obtain ⟨n, hblank⟩ : ∃ n, p.segments.reverse.takeWhile (· = "") = List.replicate n "" :=
    ⟨_, List.eq_replicate_iff.mpr ⟨rfl, fun s hs => by simpa using List.mem_takeWhile_imp hs⟩⟩
  rw [h, hblank] at hsplit
  exact ⟨n, by simpa using congrArg List.reverse hsplit.symm⟩

theorem parent_eq_ok {d : Disk} {p : Path} {place : Place} {last name : String}
    (h : d.parent p = .ok (place, last)) (hlast : Component.ofSegment? last = some (.name name)) :
    name = last ∧ last ∈ p.segments ∧ d.HasDir place ∧
      p.normalize? d.cwd = some (place ++ [last]) := by
  obtain rfl := Component.eq_of_ofSegment? hlast
  obtain ⟨start, hstart, h⟩ := exists_of_bind_eq_ok h
  obtain ⟨hempty, rfl⟩ := origin_of_start hstart
  split at h
  · cases h
    simp [Component.ofSegment?] at hlast
  · next last' rest hrev =>
    obtain ⟨place', hwalk, h⟩ := exists_of_bind_eq_ok h
    obtain ⟨next, hnext, h⟩ := exists_of_bind_eq_ok h
    cases h
    obtain ⟨hdir, -, -⟩ := enter_eq_ok_iff.mp hnext
    obtain ⟨n, hsegments⟩ := segments_of_dropWhile hrev
    refine ⟨rfl, by simp [hsegments], hdir, Path.normalize?_eq_some_iff.mpr ⟨hempty, ?_⟩⟩
    rw [hsegments, List.foldl_append, walk_eq hwalk, List.foldl_cons,
      foldl_follow_replicate _ fun _ hs => List.eq_of_mem_replicate hs]
    exact Place.follow_of_name hlast

theorem makeDir_eq_ok {d d' : Disk} {p : Path} (h : d.makeDir p = .ok d') :
    ∃ place name, name ∈ p.segments ∧ Component.ofSegment? name = some (.name name) ∧
      d.HasDir place ∧ d.files.get? (place ++ [name]) = none ∧
      d' = { d with files := d.files.put (place ++ [name]) .empty } := by
  obtain ⟨⟨place, last⟩, hparent, h⟩ := exists_of_bind_eq_ok h
  simp only at h
  split at h
  · next name hlast =>
    obtain ⟨rfl, hmem, hdir, -⟩ := parent_eq_ok hparent hlast
    split at h
    · cases h
    · next hnone =>
      exact ⟨place, name, hmem, hlast, hdir, by simpa using hnone, (Except.ok.inj h).symm⟩
  · cases h

theorem makeDir_wellFormed {d d' : Disk} {p : Path} (hp : p.Spelled) (hd : d.files.WellFormed)
    (h : d.makeDir p = .ok d') : d'.files.WellFormed := by
  obtain ⟨place, name, hmem, hname, ⟨entries, he⟩, -, rfl⟩ := makeDir_eq_ok h
  refine hd.put FileTree.wellFormed_empty fun n hn => ?_
  obtain hn | hn := List.mem_append.mp hn
  · exact (hd.get? he).2 n hn
  · obtain rfl := List.mem_singleton.mp hn
    exact ⟨hname, hp _ hmem⟩

theorem makeDir_grows {d d' : Disk} {p : Path} (h : d.makeDir p = .ok d') : d.Grows d' := by
  obtain ⟨place, name, -, -, hdir, hnone, rfl⟩ := makeDir_eq_ok h
  have hbelow : ∀ below, d.files.get? (place ++ [name] ++ below) = none := by
    intro below
    rw [FileTree.get?_append, hnone]
    rfl
  refine ⟨rfl, fun q _ => ?_, fun q _ hq => ?_⟩
  · by_cases hq : place ++ [name] <+: q
    · obtain ⟨below, rfl⟩ := hq
      have hput := FileTree.get?_put hdir .empty name below
      rw [file?, file?, FileTree.file?, FileTree.file?, hbelow]
      simp only [List.append_assoc, List.singleton_append, hput]
      cases below <;> rfl
    · exact FileTree.file?_put _ hq
  · refine FileTree.HasDir.put hq fun hunder => ?_
    obtain ⟨below, rfl⟩ := hunder
    obtain ⟨entries, he⟩ := hq
    rw [hbelow] at he
    cases he

theorem removeDir_eq_ok {d d' : Disk} {p : Path} (h : d.removeDir p = .ok d') :
    ∃ place, p.normalize? d.cwd = some place ∧ d.files.get? place = some (.dir []) ∧
      d' = { d with files := d.files.erase place } := by
  obtain ⟨⟨above, last⟩, hparent, h⟩ := exists_of_bind_eq_ok h
  simp only at h
  split at h
  · next name hlast =>
    obtain ⟨rfl, -, -, hplace⟩ := parent_eq_ok hparent hlast
    obtain ⟨entries, he, h⟩ := exists_of_bind_eq_ok h
    cases entries with
    | cons e rest => cases h
    | nil => exact ⟨_, hplace, entries_eq_ok_iff.mp he, (Except.ok.inj h).symm⟩
  · cases h
  · cases h

theorem removeDir_evolves {d d' : Disk} {p : Path} {place : Place}
    (hp : p.normalize? d.cwd = some place) (h : d.removeDir p = .ok d') :
    Evolves (·.Below place) (place <+: ·) d d' := by
  obtain ⟨place', hplace, hempty, rfl⟩ := removeDir_eq_ok h
  obtain rfl := Option.some.inj (hp.symm.trans hplace)
  refine ⟨rfl, fun q hq => ?_, fun q hq hdir => FileTree.HasDir.erase hdir hq⟩
  have hdir : d.HasDir place := ⟨[], hempty⟩
  by_cases hunder : place <+: q
  · obtain rfl : q = place := by_contra fun hne => hq ⟨hunder, hne⟩
    exact (FileTree.file?_erase_self hdir).trans hdir.file?_eq_none.symm
  · exact FileTree.file?_erase _ hunder

theorem clear_evolves {d : Disk} {place : Place} (hdir : d.HasDir place) :
    Evolves (·.Below place) (place <+: ·) d { d with files := d.files.put place .empty } := by
  refine ⟨rfl, fun q hq => ?_, fun q hq hq' => FileTree.HasDir.put hq' hq⟩
  by_cases hunder : place <+: q
  · obtain rfl : q = place := by_contra fun hne => hq ⟨hunder, hne⟩
    exact (FileTree.file?_put_empty hdir).trans hdir.file?_eq_none.symm
  · exact FileTree.file?_put _ hunder

theorem removeDir_wellFormed {d d' : Disk} {p : Path} (hd : d.files.WellFormed)
    (h : d.removeDir p = .ok d') : d'.files.WellFormed := by
  obtain ⟨place, -, -, rfl⟩ := removeDir_eq_ok h
  exact hd.erase place

theorem write_eq_ok {d d' : Disk} {p : Path} {content : ByteArray}
    (h : d.write p content = .ok d') :
    ∃ place, d.find p = .ok place ∧ ¬d.HasDir place ∧
      d' = { d with files := d.files.put place (.file content) } := by
  obtain ⟨place, hfind, h⟩ := exists_of_bind_eq_ok h
  split at h
  · cases h
  · next hdir =>
    exact ⟨place, hfind, fun ⟨entries, he⟩ => hdir entries he, (Except.ok.inj h).symm⟩

theorem write_wellFormed {d d' : Disk} {p : Path} {content : ByteArray} (hp : p.Spelled)
    (hd : d.files.WellFormed) (h : d.write p content = .ok d') : d'.files.WellFormed := by
  obtain ⟨place, hfind, -, rfl⟩ := write_eq_ok h
  exact hd.put (.file content) (names_of_find hd hp hfind)

theorem write_evolves {d d' : Disk} {p : Path} {content : ByteArray}
    (h : d.write p content = .ok d') :
    ∃ place, d.find p = .ok place ∧ ¬d.HasDir place ∧ d'.file? place = some content ∧
      Evolves (· = place) (fun _ => False) d d' := by
  obtain ⟨place, hfind, hdir, rfl⟩ := write_eq_ok h
  have hget : ∀ below, (d.files.put place (.file content)).get? (place ++ below) =
      (FileTree.file content).get? below := by
    intro below
    cases place using List.reverseRecOn with
    | nil => cases d.files <;> rfl
    | append_singleton above name =>
      have habove : d.HasDir above := by simpa using hasDir_dropLast_of_find hfind
      simpa using FileTree.get?_put habove (.file content) name below
  have hbelow : ∀ name below, d.files.get? (place ++ name :: below) = none := by
    intro name below
    rw [FileTree.get?_append]
    cases hg : d.files.get? place with
    | none => rfl
    | some t =>
      cases t with
      | file c => rfl
      | dir entries => exact absurd ⟨entries, hg⟩ hdir
  refine ⟨place, hfind, hdir, ?_, rfl, ?_, ?_⟩
  · exact FileTree.file?_eq_some_iff.mpr (by simpa [FileTree.get?] using hget [])
  · intro q hq
    by_cases hunder : place <+: q
    · obtain ⟨_ | ⟨name, below⟩, rfl⟩ := hunder
      · simp at hq
      · rw [file?, file?, FileTree.file?, FileTree.file?, hbelow]
        simp only [hget]
        rfl
    · exact FileTree.file?_put _ hunder
  · intro q _ hq
    refine FileTree.HasDir.put hq fun hunder => ?_
    obtain ⟨_ | ⟨name, below⟩, rfl⟩ := hunder
    · exact hdir (by simpa using hq)
    · obtain ⟨entries, he⟩ := hq
      rw [hbelow] at he
      cases he

end StaticSite.Disk
