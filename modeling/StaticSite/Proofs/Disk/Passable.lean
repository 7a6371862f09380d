import StaticSite.Proofs.Disk.Making

/-! Ways on which nothing stands: the directories that are missing on them can be made, also where the
ways lead up again. -/

namespace StaticSite

namespace Disk

theorem makeDir_of_parent_hasDir {d : Disk} {p : Path} {mid : Place} {last : String}
    (h : d.parent p = .ok (mid, last)) (hmid : d.HasDir mid)
    (hfile : ∀ content, d.kind? (mid.follow last) ≠ some (.file content)) :
    (∃ d', d.makeDir p = .ok d') ∨
      d.makeDir p = .error .occupied ∧ d.HasDir (mid.follow last) := by
  by_cases hname : Component.ofSegment? last = some (.name last)
  · have hmake := makeDir_of_parent h hname
    split at hmake
    · next hthere =>
      have hk : d.kind? (mid.follow last) ≠ none := by
        rw [Place.follow_of_name hname, ne_eq, kind?_eq_none_iff]
        exact Option.isSome_iff_ne_none.mp hthere
      exact .inr ⟨hmake, hasDir_of_no_file hk hfile⟩
    · exact .inl ⟨_, hmake⟩
  · refine .inr ⟨makeDir_of_parent_unnamed h hname, ?_⟩
    obtain hfollow | hfollow | ⟨hname', -⟩ := mid.follow_cases last
    · rwa [hfollow]
    · rw [hfollow]
      exact hmid.of_prefix (List.dropLast_prefix mid)
    · exact absurd hname' hname

structure Passable (d : Disk) (p : Path) : Prop where
  start_eq : d.start p = .ok (p.origin d.cwd)
  hasDir : d.HasDir (p.origin d.cwd)
  short : ∀ s ∈ p.segments, s.utf8ByteSize ≤ nameLimit
  no_file : ∀ q, p.Visits d.cwd q → ∀ content, d.kind? q ≠ some (.file content)

namespace Passable

variable {d d' : Disk} {p q : Path} {init : List String} {last : String} {slashes : Nat}

theorem of_precedes (h : d.Passable p) (hq : q.Precedes p) (hempty : q.isEmpty = false) :
    d.Passable q where
  start_eq := hq.origin_eq d.cwd ▸ start_of_precedes hq hempty h.start_eq
  hasDir := hq.origin_eq d.cwd ▸ h.hasDir
  short s hs := h.short s (hq.segments_prefix.subset hs)
  no_file place hplace := h.no_file place (hq.visits hplace)

theorem grows (h : d.Passable p) (hgrows : d.Grows d') : d'.Passable p where
  start_eq := by
    rw [start_congr hgrows.cwd_eq, hgrows.cwd_eq]
    exact h.start_eq
  hasDir := by
    rw [hgrows.cwd_eq]
    exact hgrows.hasDir _ id h.hasDir
  short := h.short
  no_file place hplace content hk := by
    rw [kind?_eq_file_iff, hgrows.file?_eq place id, ← kind?_eq_file_iff] at hk
    exact h.no_file place (hgrows.cwd_eq ▸ hplace) content hk

variable (h : d.Passable p)
include h

theorem eq_notFound_of_stepError {s : String} {rest : List String} {e : DiskError}
    (hs : p.segments = init ++ s :: rest)
    (he : d.stepError (init.foldl Place.follow (p.origin d.cwd)) s = some e) : e = .notFound := by
  have hvisits : p.Visits d.cwd (init.foldl Place.follow (p.origin d.cwd)) :=
    ⟨init, hs ▸ List.prefix_append _ _, rfl⟩
  have hshort : ¬s.utf8ByteSize > nameLimit := Nat.not_lt.mpr (h.short s (by simp [hs]))
  unfold stepError at he
  split at he
  · exact (Option.some.inj he).symm
  · next hk => exact absurd hk (h.no_file _ hvisits _)
  · rw [if_neg hshort] at he
    cases he

theorem eq_notFound_of_walk {rest : List String} {e : DiskError} (hs : p.segments = init ++ rest)
    (he : init.foldlM d.enter (p.origin d.cwd) = .error e) : e = .notFound := by
  obtain ⟨front, s, back, mid, rfl, hwalk, hstep⟩ := exists_of_walk_eq_error he
  rw [← walk_eq hwalk] at hstep
  exact h.eq_notFound_of_stepError (by simpa using hs) hstep

theorem makeDir_of_nil (hnil : p.segments = []) :
    d.makeDir p = .error .occupied ∧ d.isDir p = true := by
  have hparent : d.parent p = .ok (p.origin d.cwd, "") := by
    rw [parent, h.start_eq]
    simp only [bind, Except.bind, hnil]
    rfl
  have hfind : d.find p = .ok (p.origin d.cwd) := by
    rw [find, h.start_eq, hnil]
    rfl
  exact ⟨makeDir_of_parent_unnamed hparent (by decide), isDir_eq_true_iff.mpr ⟨_, hfind, h.hasDir⟩⟩

variable (hstops : p.StopsAt init last slashes)
include hstops

theorem makeDir_cases :
    (∃ d', d.makeDir p = .ok d') ∨ (d.makeDir p = .error .occupied ∧ d.isDir p = true) ∨
      (d.makeDir p = .error .notFound ∧
        ∀ mid, init.foldlM d.enter (p.origin d.cwd) = .ok mid → ¬d.HasDir mid) := by
  have hparent := parent_of_segments hstops.segments_eq hstops.ne_empty h.start_eq
  cases hwalk : init.foldlM d.enter (p.origin d.cwd) with
  | error e =>
    obtain rfl := h.eq_notFound_of_walk hstops.segments_eq hwalk
    refine .inr (.inr ⟨?_, nofun⟩)
    rw [makeDir, hparent, hwalk]
    rfl
  | ok mid =>
    cases hs : d.stepError mid last with
    | some e =>
      obtain rfl := h.eq_notFound_of_stepError hstops.segments_eq (walk_eq hwalk ▸ hs)
      refine .inr (.inr ⟨?_, fun mid' hmid' hdir => ?_⟩)
      · rw [makeDir, hparent, hwalk]
        simp only [bind, Except.bind, enter_eq, hs]
      · obtain rfl := Except.ok.inj hmid'
        rw [stepError_eq_notFound_iff] at hs
        simp [← kind?_eq_dir_iff, hs] at hdir
    | none =>
      have hfound : d.parent p = .ok (mid, last) := by
        rw [hparent, hwalk]
        simp only [bind, Except.bind, enter_eq, hs]
      have hvisits : p.Visits d.cwd (mid.follow last) := by
        refine ⟨init ++ [last], ⟨List.replicate slashes "", ?_⟩, ?_⟩
        · rw [hstops.segments_eq, List.append_assoc, List.singleton_append]
        · rw [List.foldl_append, walk_eq hwalk, List.foldl_cons, List.foldl_nil]
      obtain hmake | ⟨hmake, hdir⟩ :=
        makeDir_of_parent_hasDir hfound (hasDir_of_stepError hs) (h.no_file _ hvisits)
      · exact .inl hmake
      · have hfind := find_of_step hstops.segments_eq h.start_eq hwalk hs hdir
        exact .inr (.inl ⟨hmake, isDir_eq_true_iff.mpr ⟨_, hfind, hdir⟩⟩)

end Passable

end Disk

namespace Work

variable {d : Disk} {p : Path}

theorem walk_of_makeFirst {q : Path} {blanks : List String} {n : Nat} {d' : Disk}
    (h : d.Passable p) (hq : q.Precedes p) (hblanks : ∀ s ∈ blanks, Component.ofSegment? s = none)
    (hok : makeFirst (ancestors (n + 1) q) d = (.ok (), d')) :
    ∃ mid, (q.segments ++ blanks).foldlM d'.enter (p.origin d.cwd) = .ok mid ∧ d'.HasDir mid := by
  have hgrows := makeFirst_grows (ancestors (n + 1) q) d
  rw [hok] at hgrows
  obtain ⟨mid, hwalk, hdir⟩ : ∃ mid,
      q.segments.foldlM d'.enter (p.origin d.cwd) = .ok mid ∧ d'.HasDir mid := by
    cases hempty : q.isEmpty with
    | true =>
      have hnil : q.segments = [] := by simpa using (Bool.and_eq_true_iff.mp hempty).2
      exact ⟨p.origin d.cwd, by rw [hnil]; rfl, hgrows.hasDir _ id h.hasDir⟩
    | false =>
      obtain ⟨mid, hfind, hdir⟩ := Disk.isDir_eq_true_iff.mp (isDir_of_makeFirst hok hempty)
      have hwalk := (Disk.walk_of_find hfind).2
      rw [hgrows.cwd_eq, hq.origin_eq] at hwalk
      exact ⟨mid, hwalk, hdir⟩
  refine ⟨mid, ?_, hdir⟩
  rw [List.foldlM_append, hwalk]
  exact Disk.walk_blanks hdir hblanks

theorem makeFirst_of_above {q : Path} {blanks : List String} {last : String} {slashes n : Nat}
    {d' : Disk} (h : d.Passable p) (hstops : p.StopsAt (q.segments ++ blanks) last slashes)
    (hq : q.Precedes p) (hblanks : ∀ s ∈ blanks, Component.ofSegment? s = none)
    (hmake : d.makeDir p = .error .notFound)
    (habove : makeFirst (ancestors (n + 1) q) d = (.ok (), d')) :
    (makeFirst (p :: ancestors (n + 1) q) d).1 = .ok () := by
  have hempty : p.isEmpty = false := (Disk.origin_of_start h.start_eq).1
  obtain ⟨mid, hwalk, hmid⟩ := walk_of_makeFirst h hq hblanks habove
  have hgrows := makeFirst_grows (ancestors (n + 1) q) d
  rw [habove] at hgrows
  rw [makeFirst_of_above_ok hempty hmake habove]
  obtain ⟨d'', hagain⟩ | ⟨hagain, hdir⟩ | ⟨-, hno⟩ := (h.grows hgrows).makeDir_cases hstops
  · rw [hagain]
  · rw [hagain, hdir]
    rfl
  · rw [hgrows.cwd_eq] at hno
    exact absurd hmid (hno mid hwalk)

theorem makeFirst_of_passable {n : Nat} (h : d.Passable p)
    (hend : p.segments = [] ∨ ∃ init last slashes, p.StopsAt init last slashes)
    (hn : p.segments.length < n) : (makeFirst (ancestors n p) d).1 = .ok () := by
  induction n generalizing p with
  | zero => omega
  | succ n ih =>
    have hempty : p.isEmpty = false := (Disk.origin_of_start h.start_eq).1
    rw [ancestors]
    obtain hnil | ⟨init, last, slashes, hstops⟩ := hend
    · obtain ⟨hmake, hdir⟩ := h.makeDir_of_nil hnil
      rw [makeFirst_of_error hempty hmake (by decide), hdir]
      rfl
    · obtain ⟨q, blanks, hparent, rfl, hblanks, hqend⟩ := hstops.parent?
      simp only [hparent]
      obtain ⟨d', hmake⟩ | ⟨hmake, hdir⟩ | ⟨hmake, -⟩ := h.makeDir_cases hstops
      · rw [makeFirst_of_ok hempty hmake]
      · rw [makeFirst_of_error hempty hmake (by decide), hdir]
        rfl
      · have hlength : q.segments.length < n := by
          have hp := congrArg List.length hstops.segments_eq
          simp only [List.length_append, List.length_cons] at hp
          omega
        obtain ⟨n, rfl⟩ : ∃ m, n = m + 1 := ⟨n - 1, by omega⟩
        have hprecedes := Path.parent?_precedes hparent
        have hok : (makeFirst (ancestors (n + 1) q) d).1 = .ok () := by
          cases hqempty : q.isEmpty with
          | true => simp [ancestors, makeFirst, hqempty]
          | false =>
            refine ih (h.of_precedes hprecedes hqempty) (hqend.imp_right ?_) hlength
            exact Exists.imp fun init => Exists.imp fun last hq => ⟨0, hq⟩
        exact makeFirst_of_above h hstops hprecedes hblanks hmake (Prod.ext hok rfl)

theorem makeDirs_of_passable (h : d.Passable p) (hends : p.EndsInName) :
    (makeDirs p d).1 = .ok () := by
  obtain ⟨init, last, slashes, hends⟩ := hends
  exact makeFirst_of_passable h (.inr ⟨init, last, slashes, hends.stopsAt⟩) (by omega)

theorem kind?_of_makeDirs {r : Except DiskError Unit} {d' : Disk} {place : Place}
    (h : makeDirs p d = (r, d')) (hplace : ¬p.Visits d.cwd place) :
    d'.kind? place = d.kind? place := by
  have hmeets : (makeDirs p).Meets (fun e => e.cwd = d.cwd ∧ e.kind? place = d.kind? place)
      (fun _ => True) (fun _ => True) fun _ => True := by
    refine makeDirs_meets fun q e e' hq he hok => ?_
    obtain ⟨made, hmade, -, -, hkind⟩ := Disk.kind?_of_makeDir hok
    have hne : place ≠ made := by
      rintro rfl
      exact hplace (hq.visits (he.1 ▸ Path.visits_of_normalize? hmade))
    exact ⟨(Disk.makeDir_grows hok).cwd_eq.trans he.1, by rw [hkind, if_neg hne, he.2]⟩
  have hkind := (hmeets d ⟨rfl, rfl⟩).1.2
  rwa [h] at hkind

end Work

end StaticSite
