import StaticSite.Proofs.Disk.Kind
import StaticSite.Proofs.Disk.Sound
import StaticSite.Proofs.Path.Straight

namespace StaticSite

namespace Disk

open FileTree (Kind)

variable {d d' : Disk} {start place : Place} {segments : List String}

theorem walk_eq_ok_iff (h : ".." ∉ segments) :
    segments.foldlM d.enter start = .ok place ↔
      place = start ++ Place.named segments ∧ (∀ s ∈ segments, s.utf8ByteSize ≤ nameLimit) ∧
        (segments = [] ∨ d.HasDir (start ++ Place.named segments.dropLast)) := by
  induction segments using List.reverseRecOn generalizing place with
  | nil => simp [pure, Except.pure, eq_comm]
  | append_singleton init s ih =>
    rw [List.mem_append, not_or, List.mem_singleton] at h
    have hstep : ∀ mid, [s].foldlM d.enter mid = .ok place ↔
        d.HasDir mid ∧ s.utf8ByteSize ≤ nameLimit ∧ mid.follow s = place := by
      intro mid
      rw [← enter_eq_ok_iff, List.foldlM_cons, bind_eq_ok_iff]
      simp [pure, Except.pure]
    rw [List.foldlM_append, bind_eq_ok_iff]
    simp only [ih h.1, hstep, List.forall_mem_append, List.dropLast_concat]
    constructor
    · rintro ⟨mid, ⟨rfl, hinit, -⟩, hdir, hs, rfl⟩
      refine ⟨?_, ⟨hinit, by simpa using hs⟩, .inr hdir⟩
      rw [Place.follow_eq (Ne.symm h.2), List.append_assoc, ← Place.named_append]
    · rintro ⟨rfl, ⟨hinit, hs⟩, hdir⟩
      have hdir := hdir.resolve_left (by simp)
      refine ⟨_, ⟨rfl, hinit, ?_⟩, hdir, by simpa using hs, ?_⟩
      · by_cases hnil : init = []
        · exact .inl hnil
        · obtain ⟨front, last, rfl⟩ := List.eq_nil_or_concat init |>.resolve_left hnil
          rw [List.concat_eq_append, Place.named_append, ← List.append_assoc] at hdir
          rw [List.concat_eq_append, List.dropLast_concat]
          exact .inr hdir.of_append
      · rw [Place.follow_eq (Ne.symm h.2), List.append_assoc, ← Place.named_append]

theorem exists_of_walk_eq_error {e : DiskError} (h : segments.foldlM d.enter start = .error e) :
    ∃ init s rest mid, segments = init ++ s :: rest ∧ init.foldlM d.enter start = .ok mid ∧
      d.stepError mid s = some e := by
  induction segments generalizing start with
  | nil => cases h
  | cons s rest ih =>
    rw [List.foldlM_cons, enter_eq] at h
    cases hs : d.stepError start s with
    | some e' =>
      simp only [hs, bind, Except.bind, Except.error.injEq] at h
      exact ⟨[], s, rest, start, rfl, rfl, hs.trans (congrArg some h)⟩
    | none =>
      simp only [hs] at h
      obtain ⟨init, s', rest', mid, rfl, hinit, hs'⟩ := ih h
      refine ⟨s :: init, s', rest', mid, rfl, ?_, hs'⟩
      rw [List.foldlM_cons, enter_eq, hs]
      exact hinit

theorem short_of_walk (h : segments.foldlM d.enter start = .ok place) :
    ∀ s ∈ segments, s.utf8ByteSize ≤ nameLimit := by
  induction segments generalizing start with
  | nil => simp
  | cons s rest ih =>
    rw [List.foldlM_cons] at h
    obtain ⟨next, hnext, h⟩ := exists_of_bind_eq_ok h
    exact List.forall_mem_cons.mpr ⟨(enter_eq_ok_iff.mp hnext).2.1, ih h⟩

theorem walk_eq_error {init rest : List String} {s : String} {mid : Place} {e : DiskError}
    (hinit : init.foldlM d.enter start = .ok mid) (hs : d.stepError mid s = some e) :
    (init ++ s :: rest).foldlM d.enter start = .error e := by
  rw [List.foldlM_append, hinit]
  change (d.enter mid s >>= _) = _
  rw [enter_eq, hs]
  rfl

theorem hasDir_of_walk (h : segments.foldlM d.enter start = .ok place) (hne : segments ≠ []) :
    d.HasDir start := by
  obtain ⟨s, rest, rfl⟩ := List.exists_cons_of_ne_nil hne
  rw [List.foldlM_cons] at h
  obtain ⟨next, hnext, -⟩ := exists_of_bind_eq_ok h
  exact (enter_eq_ok_iff.mp hnext).1

theorem hasDir_on_walk {init : List String} (h : segments.foldlM d.enter start = .ok place)
    (hinit : init <+: segments) (hne : init ≠ segments) :
    d.HasDir (init.foldl Place.follow start) := by
  obtain ⟨rest, rfl⟩ := hinit
  rw [List.foldlM_append] at h
  obtain ⟨mid, hmid, hrest⟩ := exists_of_bind_eq_ok h
  rw [walk_eq hmid]
  exact hasDir_of_walk hrest (by simpa using hne)

theorem hasDir_of_visits {p : Path} {visited : Place} (hfind : d.find p = .ok place)
    (hdir : d.HasDir place) (h : p.Visits d.cwd visited) : d.HasDir visited := by
  obtain ⟨init, hinit, rfl⟩ := h
  have hwalk := (walk_of_find hfind).2
  by_cases heq : init = p.segments
  · rwa [heq, walk_eq hwalk]
  · exact hasDir_on_walk hwalk hinit heq

theorem walk_of_hasDir (hshort : ∀ s ∈ segments, s.utf8ByteSize ≤ nameLimit)
    (hdir : ∀ init, init <+: segments → init ≠ segments →
      d.HasDir (init.foldl Place.follow start)) :
    segments.foldlM d.enter start = .ok (segments.foldl Place.follow start) := by
  induction segments generalizing start with
  | nil => rfl
  | cons s rest ih =>
    rw [List.forall_mem_cons] at hshort
    have hstart : d.HasDir start := hdir [] List.nil_prefix (by simp)
    rw [List.foldlM_cons, enter_eq_ok_iff.mpr ⟨hstart, hshort.1, rfl⟩]
    exact ih hshort.2 fun init hinit hne =>
      hdir (s :: init) (List.cons_prefix_cons.mpr ⟨rfl, hinit⟩) (by simpa using hne)

theorem find_of_hasDir_visits {p : Path} (hcwd : d'.cwd = d.cwd)
    (hdir : ∀ q, p.Visits d.cwd q → d.HasDir q → d'.HasDir q) (h : d.find p = .ok place) :
    d'.find p = .ok place := by
  obtain ⟨start, hstart, h⟩ := exists_of_bind_eq_ok h
  have horigin := (origin_of_start hstart).2
  rw [find, start_congr hcwd, hstart]
  refine (walk_of_hasDir (short_of_walk h) fun init hinit hne => ?_).trans (congrArg _ (walk_eq h))
  exact hdir _ ⟨init, hinit, by rw [horigin]⟩ (hasDir_on_walk h hinit hne)

theorem find_of_hasDir_prefix {p : Path} (hp : p.Straight) (hcwd : d'.cwd = d.cwd)
    (hdir : ∀ q, q <+: place → d.HasDir q → d'.HasDir q) (h : d.find p = .ok place) :
    d'.find p = .ok place :=
  find_of_hasDir_visits hcwd
    (fun q hq => hdir q (hp.prefix_of_visits (normalize?_of_find h) hq)) h

theorem start_of_precedes {p q : Path} (h : q.Precedes p) (hempty : q.isEmpty = false)
    (hstart : d.start p = .ok place) : d.start q = .ok place := by
  unfold Disk.start at hstart ⊢
  rw [if_neg (by simp [hempty])]
  split at hstart
  · cases hstart
  · split at hstart
    · cases hstart
    · next hnul =>
      rw [if_neg, h.isAbsolute_eq]
      · exact hstart
      · simp only [List.any_eq_true, not_exists, not_and] at hnul ⊢
        exact fun s hs => hnul s (h.segments_prefix.subset hs)

/-- The first thing that stands in the way along some segments even if directories that are missing
are made. -/
def obstacle? (d : Disk) (place : Place) : List String → Option DiskError
  | [] => none
  | s :: rest =>
    match d.kind? place with
    | some (.file _) => some .notDirectory
    | _ => if s.utf8ByteSize > nameLimit then some .nameTooLong else d.obstacle? (place.follow s) rest

theorem obstacle?_append (d : Disk) (place : Place) (a b : List String) :
    d.obstacle? place (a ++ b) =
      (d.obstacle? place a).or (d.obstacle? (a.foldl Place.follow place) b) := by
  induction a generalizing place with
  | nil => rfl
  | cons s rest ih =>
    simp only [List.cons_append, obstacle?, List.foldl_cons]
    split
    · rfl
    · split
      · rfl
      · exact ih _

theorem stepError_eq_notFound_iff {s : String} :
    d.stepError place s = some .notFound ↔ d.kind? place = none := by
  unfold stepError
  cases d.kind? place with
  | none => simp
  | some k => cases k <;> simp

theorem obstacle?_of_stepError {s : String} {e : DiskError} (h : d.stepError place s = some e)
    (he : e ≠ .notFound) (rest : List String) : d.obstacle? place (s :: rest) = some e := by
  unfold stepError at h
  unfold obstacle?
  cases hk : d.kind? place with
  | none =>
    rw [hk] at h
    exact absurd (Option.some.inj h).symm he
  | some k =>
    rw [hk] at h
    cases k with
    | file content => exact h
    | dir =>
      simp only at h ⊢
      split_ifs at h ⊢
      exact h

theorem obstacle?_of_walk (h : segments.foldlM d.enter start = .ok place) :
    d.obstacle? start segments = none := by
  induction segments generalizing start with
  | nil => rfl
  | cons s rest ih =>
    rw [List.foldlM_cons] at h
    obtain ⟨next, hnext, h⟩ := exists_of_bind_eq_ok h
    obtain ⟨hdir, hs, rfl⟩ := enter_eq_ok_iff.mp hnext
    rw [obstacle?, kind?_eq_dir_iff.mpr hdir, if_neg (Nat.not_lt.mpr hs)]
    exact ih h

theorem obstacle?_of_step {s : String} (h : d.stepError place s = none) :
    d.obstacle? place [s] = none := by
  have hwalk : [s].foldlM d.enter place = .ok (place.follow s) := by
    rw [List.foldlM_cons, enter_eq, h]
    rfl
  exact obstacle?_of_walk hwalk

theorem short_of_obstacle?_eq_none (h : d.obstacle? start segments = none) :
    ∀ s ∈ segments, s.utf8ByteSize ≤ nameLimit := by
  induction segments generalizing start with
  | nil => simp
  | cons s rest ih =>
    rw [obstacle?] at h
    split at h
    · cases h
    · split_ifs at h with hs
      exact List.forall_mem_cons.mpr ⟨Nat.not_lt.mp hs, ih h⟩

theorem short_of_blank {s : String} (h : Component.ofSegment? s = none) :
    s.utf8ByteSize ≤ nameLimit := by
  unfold Component.ofSegment? at h
  split_ifs at h with hs
  simp only [Bool.or_eq_true, decide_eq_true_eq] at hs
  obtain rfl | rfl := hs <;> decide

theorem obstacle?_of_none (h : d.kind? place = none) {blanks : List String}
    (hblanks : ∀ s ∈ blanks, Component.ofSegment? s = none) (last : String) :
    d.obstacle? place (blanks ++ [last]) =
      if last.utf8ByteSize > nameLimit then some .nameTooLong else none := by
  induction blanks with
  | nil => simp [obstacle?, h]
  | cons s rest ih =>
    rw [List.forall_mem_cons] at hblanks
    have hfollow : place.follow s = place := by simp [Place.follow, hblanks.1]
    rw [List.cons_append, obstacle?, h]
    simp only [if_neg (Nat.not_lt.mpr (short_of_blank hblanks.1)), hfollow]
    exact ih hblanks.2

theorem obstacle?_append_of_none (hup : ".." ∉ segments)
    (hnone : d.kind? (start ++ Place.named segments) = none) {blanks : List String}
    (hblanks : ∀ s ∈ blanks, Component.ofSegment? s = none) (last : String) :
    d.obstacle? start (segments ++ blanks ++ [last]) = (d.obstacle? start segments).or
      (if last.utf8ByteSize > nameLimit then some .nameTooLong else none) := by
  rw [List.append_assoc, obstacle?_append, Place.foldl_follow hup, obstacle?_of_none hnone hblanks]

theorem obstacle?_congr (hup : ".." ∉ segments)
    (h : ∀ a, a <+: segments → a ≠ segments → ∀ content,
      d'.kind? (start ++ Place.named a) = some (.file content) ↔
        d.kind? (start ++ Place.named a) = some (.file content)) :
    d'.obstacle? start segments = d.obstacle? start segments := by
  induction segments generalizing start with
  | nil => rfl
  | cons s rest ih =>
    rw [List.mem_cons, not_or] at hup
    have hhere : ∀ content, d'.kind? start = some (.file content) ↔
        d.kind? start = some (.file content) := by
      simpa using h [] List.nil_prefix (by simp)
    have hrest : d'.obstacle? (start.follow s) rest = d.obstacle? (start.follow s) rest := by
      refine ih hup.2 fun a ha hne content => ?_
      have hcons := h (s :: a) (List.cons_prefix_cons.mpr ⟨rfl, ha⟩) (by simpa using hne) content
      rwa [Place.follow_eq (Ne.symm hup.1), List.append_assoc, ← Place.named_append]
    rw [obstacle?, obstacle?, hrest]
    cases hk : d.kind? start with
    | none =>
      cases hk' : d'.kind? start with
      | none => rfl
      | some k =>
        cases k with
        | file content => simp [hk, hk'] at hhere
        | dir => rfl
    | some k =>
      cases k with
      | file content => rw [(hhere content).mpr hk]
      | dir =>
        cases hk' : d'.kind? start with
        | none => rfl
        | some k' =>
          cases k' with
          | file content => simp [hk, hk'] at hhere
          | dir => rfl

end Disk

end StaticSite
