import StaticSite.Proofs.Disk.Way

namespace StaticSite

namespace Disk

structure Paves (place : Place) (d d' : Disk) : Prop where
  cwd_eq : d'.cwd = d.cwd
  kind?_eq : ∀ q, d'.kind? q = d.kind? q ∨
    q <+: place ∧ d.kind? q = none ∧ d'.kind? q = some .dir

namespace Paves

variable {d d' d'' : Disk} {place : Place}

theorem refl (place : Place) (d : Disk) : Paves place d d := ⟨rfl, fun _ => .inl rfl⟩

theorem trans (h : Paves place d d') (h' : Paves place d' d'') : Paves place d d'' := by
  refine ⟨h'.cwd_eq.trans h.cwd_eq, fun q => ?_⟩
  obtain heq | ⟨hq, hnone, hdir⟩ := h.kind?_eq q
  · rw [← heq]
    exact h'.kind?_eq q
  · obtain heq' | ⟨-, hnone', -⟩ := h'.kind?_eq q
    · exact .inr ⟨hq, hnone, heq'.trans hdir⟩
    · rw [hdir] at hnone'
      cases hnone'

theorem kind?_of_not_prefix (h : Paves place d d') {q : Place} (hq : ¬q <+: place) :
    d'.kind? q = d.kind? q :=
  (h.kind?_eq q).resolve_right fun hnew => hq hnew.1

theorem file_iff (h : Paves place d d') (q : Place) (content : ByteArray) :
    d'.kind? q = some (.file content) ↔ d.kind? q = some (.file content) := by
  obtain heq | ⟨-, hnone, hdir⟩ := h.kind?_eq q
  · rw [heq]
  · simp [hnone, hdir]

theorem hasDir (h : Paves place d d') {q : Place} (hq : d.HasDir q) : d'.HasDir q := by
  rw [← kind?_eq_dir_iff] at hq ⊢
  obtain heq | ⟨-, hnone, -⟩ := h.kind?_eq q
  · exact heq.trans hq
  · simp [hq] at hnone

end Paves

theorem paves_of_makeDir {d d' : Disk} {p q : Path} {place : Place} (hp : p.Straight)
    (hplace : p.normalize? d.cwd = some place) (hq : q.Precedes p) (h : d.makeDir q = .ok d') :
    Paves place d d' := by
  obtain ⟨made, hmade, hnone, -, hkind⟩ := kind?_of_makeDir h
  refine ⟨(makeDir_grows h).cwd_eq, fun r => ?_⟩
  rw [hkind]
  split
  · next heq => exact .inr ⟨heq ▸ hq.place_prefix hp hmade hplace, heq ▸ hnone, rfl⟩
  · exact .inl rfl

section EndsIn

variable {d d' : Disk} {p : Path} {init : List String} {last : String} {slashes : Nat}
  {start mid : Place} {e : DiskError}

theorem walk_blanks (hdir : d.HasDir mid) {blanks : List String}
    (h : ∀ s ∈ blanks, Component.ofSegment? s = none) : blanks.foldlM d.enter mid = .ok mid := by
  induction blanks with
  | nil => rfl
  | cons s rest ih =>
    rw [List.forall_mem_cons] at h
    have hfollow : mid.follow s = mid := by simp [Place.follow, h.1]
    rw [List.foldlM_cons, enter_eq_ok_iff.mpr ⟨hdir, short_of_blank h.1, hfollow⟩]
    exact ih h.2

theorem walk_slashes (hdir : d.HasDir mid) (n : Nat) :
    (List.replicate n "").foldlM d.enter mid = .ok mid :=
  walk_blanks hdir fun _ hs => List.eq_of_mem_replicate hs ▸ rfl

theorem hasDir_of_stepError {s : String} (h : d.stepError mid s = none) : d.HasDir mid := by
  unfold stepError at h
  split at h
  · cases h
  · cases h
  · next hk => exact kind?_eq_dir_iff.mp hk

theorem endsIn_of_parent (h : d.parent p = .ok (mid, last))
    (hlast : Component.ofSegment? last = some (.name last)) :
    ∃ init slashes start, p.EndsIn init last slashes ∧ d.start p = .ok start ∧
      init.foldlM d.enter start = .ok mid ∧ d.stepError mid last = none := by
  obtain ⟨start, hstart, h⟩ := exists_of_bind_eq_ok h
  split at h
  · cases h
    simp [Component.ofSegment?] at hlast
  · next last' rest hrev =>
    obtain ⟨mid', hwalk, h⟩ := exists_of_bind_eq_ok h
    obtain ⟨next, hnext, h⟩ := exists_of_bind_eq_ok h
    cases h
    have hstep : d.stepError mid last = none := by
      rw [enter_eq] at hnext
      cases hs : d.stepError mid last <;> simp_all
    obtain ⟨n, hs⟩ := segments_of_dropWhile hrev
    exact ⟨rest.reverse, n, start, ⟨hs, hlast⟩, hstart, hwalk, hstep⟩

theorem makeDir_of_parent (h : d.parent p = .ok (mid, last))
    (hlast : Component.ofSegment? last = some (.name last)) :
    d.makeDir p = if (d.files.get? (mid ++ [last])).isSome then .error .occupied
      else .ok { d with files := d.files.put (mid ++ [last]) .empty } := by
  rw [makeDir, h]
  simp only [bind, Except.bind, hlast]
  split <;> rfl

theorem makeDir_of_parent_unnamed (h : d.parent p = .ok (mid, last))
    (hlast : Component.ofSegment? last ≠ some (.name last)) : d.makeDir p = .error .occupied := by
  rw [makeDir, h]
  simp only [bind, Except.bind]
  split
  · next name hname => exact absurd (Component.eq_of_ofSegment? hname ▸ hname) hlast
  · rfl

theorem removeDir_of_parent_unnamed (h : d.parent p = .ok (mid, last))
    (hlast : Component.ofSegment? last ≠ some (.name last)) :
    ∃ e, d.removeDir p = .error e ∧ e ≠ .notFound := by
  rw [removeDir, h]
  simp only [bind, Except.bind]
  split
  · next name hname => exact absurd (Component.eq_of_ofSegment? hname ▸ hname) hlast
  · exact ⟨.notEmpty, rfl, by decide⟩
  · exact ⟨.invalid, rfl, by decide⟩

theorem parent_of_segments (hs : p.segments = init ++ last :: List.replicate slashes "")
    (hne : last ≠ "") (hstart : d.start p = .ok start) :
    d.parent p = init.foldlM d.enter start >>= fun mid =>
      d.enter mid last >>= fun _ => .ok (mid, last) := by
  have hrev : p.segments.reverse.dropWhile (· = "") = last :: init.reverse := by simp [hs, hne]
  rw [parent, hstart]
  simp only [bind, Except.bind, hrev, List.reverse_reverse]
  rfl

theorem exists_parent_of_find {place : Place} (h : d.find p = .ok place) :
    ∃ mid last, d.parent p = .ok (mid, last) := by
  obtain ⟨start, hstart, h⟩ := exists_of_bind_eq_ok h
  cases hrev : p.segments.reverse.dropWhile (· = "") with
  | nil =>
    refine ⟨start, "", ?_⟩
    rw [parent, hstart]
    simp only [bind, Except.bind, hrev]
    rfl
  | cons last rest =>
    obtain ⟨n, hs⟩ := segments_of_dropWhile hrev
    rw [hs, List.foldlM_append] at h
    obtain ⟨mid, hmid, h⟩ := exists_of_bind_eq_ok h
    obtain ⟨next, hnext, -⟩ := exists_of_bind_eq_ok h
    refine ⟨mid, last, ?_⟩
    rw [parent, hstart]
    simp only [bind, Except.bind, hrev, hmid, hnext]
    rfl

theorem find_of_step (hs : p.segments = init ++ last :: List.replicate slashes "")
    (hstart : d.start p = .ok start) (hinit : init.foldlM d.enter start = .ok mid)
    (hlast : d.stepError mid last = none) (hdir : d.HasDir (mid.follow last)) :
    d.find p = .ok (mid.follow last) := by
  rw [find, hstart, hs]
  change (init ++ last :: List.replicate slashes "").foldlM d.enter start = _
  rw [List.foldlM_append, hinit]
  change (d.enter mid last >>= _) = _
  rw [enter_eq, hlast]
  exact walk_slashes hdir slashes

variable (h : p.EndsIn init last slashes)
include h

theorem place_of_endsIn (hp : p.Straight) (hstart : d.start p = .ok start) {place : Place}
    (hplace : p.normalize? d.cwd = some place) : place = start ++ Place.named init ++ [last] := by
  rw [hp.eq_of_normalize? hplace, (origin_of_start hstart).2, h.named_segments, List.append_assoc]

theorem not_prefix_start (hp : p.Straight) (hstart : d.start p = .ok start) {place : Place}
    (hplace : p.normalize? d.cwd = some place) : ¬place <+: start := by
  rw [place_of_endsIn h hp hstart hplace]
  exact fun hle => Place.not_concat_prefix _ last (hle.trans (List.prefix_append _ _))

theorem parent_of_endsIn (hstart : d.start p = .ok start) :
    d.parent p = init.foldlM d.enter start >>= fun mid =>
      d.enter mid last >>= fun _ => .ok (mid, last) :=
  parent_of_segments h.segments_eq (Component.ofSegment?_name_iff.mp h.name).1 hstart

theorem find_of_endsIn (hstart : d.start p = .ok start)
    (hinit : init.foldlM d.enter start = .ok mid) (hlast : d.stepError mid last = none)
    (hdir : d.HasDir (mid ++ [last])) : d.find p = .ok (mid ++ [last]) := by
  rw [← Place.follow_of_name h.name] at hdir ⊢
  exact find_of_step h.segments_eq hstart hinit hlast hdir

theorem walk_of_find_endsIn {place : Place} (hfind : d.find p = .ok place) :
    ∃ start mid, d.start p = .ok start ∧ init.foldlM d.enter start = .ok mid ∧
      d.stepError mid last = none ∧ place = mid ++ [last] := by
  obtain ⟨start, hstart, hwalk⟩ := exists_of_bind_eq_ok hfind
  have hend := walk_eq hwalk
  rw [h.segments_eq, List.foldlM_append] at hwalk
  obtain ⟨mid, hinit, hwalk⟩ := exists_of_bind_eq_ok hwalk
  obtain ⟨next, hnext, -⟩ := exists_of_bind_eq_ok hwalk
  refine ⟨start, mid, hstart, hinit, ?_, ?_⟩
  · rw [enter_eq] at hnext
    cases hs : d.stepError mid last <;> simp_all
  · rw [← hend, h.segments_eq, List.foldl_append, walk_eq hinit, List.foldl_cons,
      foldl_follow_replicate _ fun _ hs => List.eq_of_mem_replicate hs, Place.follow_of_name h.name]

theorem find_eq_error_of_walk (hstart : d.start p = .ok start)
    (hinit : init.foldlM d.enter start = .error e) : d.find p = .error e := by
  rw [find, hstart, h.segments_eq]
  change (init ++ last :: List.replicate slashes "").foldlM d.enter start = _
  rw [List.foldlM_append, hinit]
  rfl

theorem find_eq_error_of_step (hstart : d.start p = .ok start)
    (hinit : init.foldlM d.enter start = .ok mid) (hlast : d.stepError mid last = some e) :
    d.find p = .error e := by
  rw [find, hstart, h.segments_eq]
  exact walk_eq_error hinit hlast

theorem makeDir_eq_error_of_walk (hstart : d.start p = .ok start)
    (hinit : init.foldlM d.enter start = .error e) : d.makeDir p = .error e := by
  rw [makeDir, parent_of_endsIn h hstart, hinit]
  rfl

theorem makeDir_eq_error_of_step (hstart : d.start p = .ok start)
    (hinit : init.foldlM d.enter start = .ok mid) (hlast : d.stepError mid last = some e) :
    d.makeDir p = .error e := by
  rw [makeDir, parent_of_endsIn h hstart, hinit]
  change (((d.enter mid last >>= _) >>= _) : Except DiskError Disk) = _
  rw [enter_eq, hlast]
  rfl

theorem makeDir_of_step (hstart : d.start p = .ok start)
    (hinit : init.foldlM d.enter start = .ok mid) (hlast : d.stepError mid last = none) :
    d.makeDir p = if (d.files.get? (mid ++ [last])).isSome then .error .occupied
      else .ok { d with files := d.files.put (mid ++ [last]) .empty } := by
  refine makeDir_of_parent ?_ h.name
  rw [parent_of_endsIn h hstart, hinit]
  change (d.enter mid last >>= _) = _
  rw [enter_eq, hlast]
  rfl

theorem removeDir_of_step (hstart : d.start p = .ok start)
    (hinit : init.foldlM d.enter start = .ok mid) (hlast : d.stepError mid last = none)
    (hempty : d.entries (mid ++ [last]) = .ok []) :
    d.removeDir p = .ok { d with files := d.files.erase (mid ++ [last]) } := by
  rw [removeDir, parent_of_endsIn h hstart, hinit]
  change (((d.enter mid last >>= _) >>= _) : Except DiskError Disk) = _
  rw [enter_eq, hlast]
  simp only [bind, Except.bind, h.name, hempty]
  rfl

end EndsIn

theorem hasDir_start_of_makeDir {d d' : Disk} {p : Path} (h : d.makeDir p = .ok d') :
    ∃ start, d.start p = .ok start ∧ d.HasDir start := by
  obtain ⟨⟨mid, last⟩, hparent, h⟩ := exists_of_bind_eq_ok h
  simp only at h
  split at h
  · next name hlast =>
    obtain rfl := Component.eq_of_ofSegment? hlast
    obtain ⟨init, slashes, start, -, hstart, hinit, hstep⟩ := endsIn_of_parent hparent hlast
    refine ⟨start, hstart, ?_⟩
    cases init with
    | nil =>
      cases hinit
      exact hasDir_of_stepError hstep
    | cons s rest => exact hasDir_of_walk hinit (List.cons_ne_nil s rest)
  · cases h

theorem endsInName_of_makeDir {d d' : Disk} {p : Path} (h : d.makeDir p = .ok d') :
    p.EndsInName := by
  obtain ⟨⟨mid, last⟩, hparent, h⟩ := exists_of_bind_eq_ok h
  simp only at h
  split at h
  · next name hlast =>
    obtain rfl := Component.eq_of_ofSegment? hlast
    obtain ⟨init, slashes, -, hends, -⟩ := endsIn_of_parent hparent hlast
    exact ⟨init, name, slashes, hends⟩
  · cases h

theorem isDir_of_find_error {d : Disk} {p : Path} {e : DiskError} (h : d.find p = .error e) :
    d.isDir p = false := by
  simp [← Bool.not_eq_true, isDir_eq_true_iff, h]

theorem isDir_of_makeDir {d d' : Disk} {p : Path} (h : d.makeDir p = .ok d') : d'.isDir p := by
  have hgrows := makeDir_grows h
  obtain ⟨place, hplace, -, -, hkind⟩ := kind?_of_makeDir h
  obtain ⟨⟨mid, last⟩, hparent, h⟩ := exists_of_bind_eq_ok h
  simp only at h
  split at h
  · next name hlast =>
    obtain ⟨rfl, -, -, hmade⟩ := parent_eq_ok hparent hlast
    obtain ⟨init, slashes, start, hends, hstart, hinit, hstep⟩ := endsIn_of_parent hparent hlast
    obtain rfl := Option.some.inj (hmade.symm.trans hplace)
    have hdir : d'.HasDir (mid ++ [name]) := kind?_eq_dir_iff.mp (by rw [hkind, if_pos rfl])
    have hmono : ∀ q, d.HasDir q → d'.HasDir q := fun q => hgrows.hasDir q id
    have hstep' : d'.stepError mid name = none := by
      have hmid := hasDir_of_stepError hstep
      rw [stepError, kind?_eq_dir_iff.mpr (hmono _ hmid), ← kind?_eq_dir_iff.mpr hmid]
      exact hstep
    exact isDir_eq_true_iff.mpr ⟨_, find_of_endsIn hends
      ((start_congr hgrows.cwd_eq p).trans hstart) (walk_mono hmono hinit) hstep' hdir, hdir⟩
  · cases h

end Disk

namespace Work

variable {d d' : Disk} {p : Path} {place : Place}

section MakeFirst

variable {above : List Path} {d'' : Disk} {e : DiskError} (hempty : p.isEmpty = false)
include hempty

theorem makeFirst_of_ok (hmake : d.makeDir p = .ok d') : makeFirst (p :: above) d = (.ok (), d') := by
  simp [makeFirst, hempty, hmake]

theorem makeFirst_of_error (hmake : d.makeDir p = .error e) (he : e ≠ .notFound) :
    makeFirst (p :: above) d = (if d.isDir p then .ok () else .error e, d) := by
  cases e <;> first | exact absurd rfl he | simp [makeFirst, hempty, hmake]

variable (hmake : d.makeDir p = .error .notFound)
include hmake

theorem makeFirst_of_above_error (habove : makeFirst above d = (.error e, d')) :
    makeFirst (p :: above) d = (.error e, d') := by
  simp [makeFirst, hempty, hmake, habove]

theorem makeFirst_of_above_ok (habove : makeFirst above d = (.ok (), d')) :
    makeFirst (p :: above) d = match d'.makeDir p with
      | .ok d'' => (.ok (), d'')
      | .error e => (if d'.isDir p then .ok () else .error e, d') := by
  cases hagain : d'.makeDir p <;> simp [makeFirst, hempty, hmake, habove, hagain]

end MakeFirst

theorem isDir_of_makeFirst {above : List Path} (h : makeFirst (p :: above) d = (.ok (), d'))
    (hempty : p.isEmpty = false) : d'.isDir p := by
  have hend : ∀ {e : Disk} {x : DiskError},
      ((if e.isDir p then .ok () else .error x : Except DiskError Unit), e) = (.ok (), d') →
        d'.isDir p := by
    intro e x hx
    obtain ⟨hresult, rfl⟩ := Prod.mk.inj hx
    split at hresult
    · assumption
    · cases hresult
  cases hmake : d.makeDir p with
  | ok d₁ =>
    rw [makeFirst_of_ok hempty hmake] at h
    cases h
    exact Disk.isDir_of_makeDir hmake
  | error e =>
    by_cases he : e = .notFound
    · subst he
      cases habove : makeFirst above d with
      | mk r d₁ =>
        cases r with
        | error e =>
          rw [makeFirst_of_above_error hempty hmake habove] at h
          cases congrArg Prod.fst h
        | ok u =>
          rw [makeFirst_of_above_ok hempty hmake habove] at h
          split at h
          · next hmake' =>
            cases h
            exact Disk.isDir_of_makeDir hmake'
          · exact hend h
    · rw [makeFirst_of_error hempty hmake he] at h
      exact hend h

theorem isDir_of_makeDirs (h : makeDirs p d = (.ok (), d')) (hempty : p.isEmpty = false) :
    d'.isDir p := isDir_of_makeFirst h hempty

theorem makeFirst_grows (ps : List Path) (d : Disk) : d.Grows (makeFirst ps d).2 :=
  (makeFirst_meets (I := fun _ => True) (fun _ _ _ _ _ _ => trivial) d trivial).2.1

theorem grows_of_makeDirs {r : Except DiskError Unit} (h : makeDirs p d = (r, d')) :
    d.Grows d' := by
  have hgrows := makeFirst_grows (ancestors (p.segments.length + 2) p) d
  rwa [← makeDirs, h] at hgrows

theorem found_of_makeDirs (hplace : p.normalize? d.cwd = some place)
    (h : makeDirs p d = (.ok (), d')) : d'.cwd = d.cwd ∧ d'.find p = .ok place ∧ d'.HasDir place := by
  have hcwd := (grows_of_makeDirs h).cwd_eq
  have hempty := (Path.normalize?_eq_some_iff.mp hplace).1
  obtain ⟨found, hfind, hdir⟩ := Disk.isDir_eq_true_iff.mp (isDir_of_makeDirs h hempty)
  have hfound := Disk.normalize?_of_find hfind
  rw [hcwd, hplace] at hfound
  obtain rfl := Option.some.inj hfound
  exact ⟨hcwd, hfind, hdir⟩

theorem makeFirst_paves (hp : p.Straight) (hplace : p.normalize? d.cwd = some place) (n : Nat) :
    d.Paves place (makeFirst (ancestors n p) d).2 := by
  have hmeets : (makeFirst (ancestors n p)).Meets (d.Paves place) (fun _ => True) (fun _ => True)
      fun _ => True := by
    refine makeFirst_meets fun q hq e e' he hok => he.trans ?_
    exact Disk.paves_of_makeDir hp (he.cwd_eq ▸ hplace) (precedes_of_mem_ancestors hq) hok
  exact (hmeets d (.refl place d)).1

theorem makeDirs_paves (hp : p.Straight) (hplace : p.normalize? d.cwd = some place) :
    d.Paves place (makeDirs p d).2 := makeFirst_paves hp hplace _

theorem makeDirs_snd_of_not_hasDir {start : Place} (hstart : d.start p = .ok start)
    (hdir : ¬d.HasDir start) : (makeDirs p d).2 = d := by
  have hmeets : (makeDirs p).Meets (· = d) (fun _ => True) (fun _ => True) fun _ => True := by
    refine makeDirs_meets fun q e e' hq he hok => ?_
    subst he
    obtain ⟨start', hstart', hdir'⟩ := Disk.hasDir_start_of_makeDir hok
    have hempty := (Disk.origin_of_start hstart').1
    obtain rfl := Except.ok.inj ((Disk.start_of_precedes hq hempty hstart).symm.trans hstart')
    exact absurd hdir' hdir
  exact (hmeets d rfl).1

def barred : Option DiskError → Except DiskError Unit
  | some e => .error e
  | none => .ok ()

section EndsIn

variable {init : List String} {last : String} {slashes : Nat} {start : Place}
  (h : p.EndsIn init last slashes) (hstart : d.start p = .ok start)
include h hstart

theorem makeFirst_of_missing {above : List Path} (hup : ".." ∉ init) (hmake : d.makeDir p = .error .notFound)
    (hnone : d.kind? (start ++ Place.named init) = none)
    (hshort : ∀ s ∈ init, s.utf8ByteSize ≤ Disk.nameLimit)
    (habove : makeFirst above d = (.ok (), d'))
    (hpaves : d.Paves (start ++ Place.named init) d')
    (hmade : d'.HasDir (start ++ Place.named init)) :
    (makeFirst (p :: above) d).1 =
      barred (if last.utf8ByteSize > Disk.nameLimit then some .nameTooLong else none) := by
  have hempty : p.isEmpty = false := (Disk.origin_of_start hstart).1
  have hstart' : d'.start p = .ok start := (Disk.start_congr hpaves.cwd_eq p).trans hstart
  have hwalk : init.foldlM d'.enter start = .ok (start ++ Place.named init) := by
    refine (Disk.walk_eq_ok_iff hup).mpr ⟨rfl, hshort, .inr (hmade.of_prefix ?_)⟩
    exact Place.append_named_prefix _ (List.dropLast_prefix init)
  rw [makeFirst_of_above_ok hempty hmake habove]
  have hkind := Disk.kind?_eq_dir_iff.mpr hmade
  by_cases hlong : last.utf8ByteSize > Disk.nameLimit
  · have hstep : d'.stepError (start ++ Place.named init) last = some .nameTooLong := by
      simp [Disk.stepError, hkind, hlong]
    have hfind := Disk.find_eq_error_of_step h hstart' hwalk hstep
    rw [Disk.makeDir_eq_error_of_step h hstart' hwalk hstep, if_pos hlong]
    simp [Disk.isDir_of_find_error hfind, barred]
  · have hstep : d'.stepError (start ++ Place.named init) last = none := by
      simp [Disk.stepError, hkind, hlong]
    have hnew : d'.kind? (start ++ Place.named init ++ [last]) = none := by
      rw [hpaves.kind?_of_not_prefix (Place.not_concat_prefix _ last)]
      exact Disk.kind?_append_of_none hnone [last]
    rw [Disk.makeDir_of_step h hstart' hwalk hstep, Disk.kind?_eq_none_iff.mp hnew, if_neg hlong]
    rfl

theorem makeFirst_of_walk {above : List Path}
    (hwalk : init.foldlM d.enter start = .ok (start ++ Place.named init))
    (hfile : ∀ content, d.kind? (start ++ Place.named init ++ [last]) ≠ some (.file content))
    (hthere : d.kind? (start ++ Place.named init) ≠ none) :
    (makeFirst (p :: above) d).1 = barred (d.obstacle? (start ++ Place.named init) [last]) := by
  have hempty : p.isEmpty = false := (Disk.origin_of_start hstart).1
  cases hs : d.stepError (start ++ Place.named init) last with
  | some e =>
    have he : e ≠ .notFound := by
      rintro rfl
      exact hthere (Disk.stepError_eq_notFound_iff.mp hs)
    have hmake := Disk.makeDir_eq_error_of_step h hstart hwalk hs
    have hfind := Disk.find_eq_error_of_step h hstart hwalk hs
    rw [makeFirst_of_error hempty hmake he, Disk.isDir_of_find_error hfind,
      Disk.obstacle?_of_stepError hs he]
    rfl
  | none =>
    rw [Disk.obstacle?_of_step hs]
    have hmake := Disk.makeDir_of_step h hstart hwalk hs
    split at hmake
    · next hoccupied =>
      have hdir := Disk.hasDir_of_no_file (fun hk => by
        rw [Disk.kind?_eq_none_iff.mp hk] at hoccupied
        cases hoccupied) hfile
      have hfind := Disk.find_of_endsIn h hstart hwalk hs hdir
      rw [makeFirst_of_error hempty hmake (by decide),
        Disk.isDir_eq_true_iff.mpr ⟨_, hfind, hdir⟩]
      rfl
    · rw [makeFirst_of_ok hempty hmake]
      rfl

theorem makeFirst_of_parent {q : Path} {init' blanks : List String} {last' : String} {n : Nat}
    (hup : ".." ∉ init) (hparent : p.parent? = some q) (hinit : init = q.segments ++ blanks)
    (hblanks : ∀ s ∈ blanks, Component.ofSegment? s = none) (hq : q.EndsIn init' last' 0) (hn : 0 < n)
    (hmake : d.makeDir p = .error .notFound) (hnone : d.kind? (start ++ Place.named q.segments) = none)
    (hrec : (makeFirst (ancestors n q) d).1 = barred (d.obstacle? start q.segments)) :
    (makeFirst (p :: ancestors n q) d).1 = barred (d.obstacle? start (init ++ [last])) := by
  subst hinit
  have hempty : p.isEmpty = false := (Disk.origin_of_start hstart).1
  have hqempty : q.isEmpty = false := by simp [Path.isEmpty, hq.segments_eq]
  have hqstart := Disk.start_of_precedes (Path.parent?_precedes hparent) hqempty hstart
  have hstraight : q.Straight := fun hmem => hup (by simp [hmem])
  have hplace : q.normalize? d.cwd = some (start ++ Place.named q.segments) := by
    rw [hstraight.normalize? hqempty, ← (Disk.origin_of_start hqstart).2]
  have hnamed := Place.named_append_of_blank q.segments hblanks
  have hpaves := makeFirst_paves hstraight hplace n
  obtain ⟨n, rfl⟩ : ∃ m, n = m + 1 := ⟨n - 1, by omega⟩
  rw [Disk.obstacle?_append_of_none hstraight hnone hblanks]
  cases habove : makeFirst (ancestors (n + 1) q) d with
  | mk r d₁ =>
    rw [habove] at hrec hpaves
    cases ho : d.obstacle? start q.segments with
    | some e =>
      rw [ho] at hrec
      obtain rfl : r = .error e := hrec
      rw [makeFirst_of_above_error hempty hmake habove]
      rfl
    | none =>
      rw [ho] at hrec
      obtain rfl : r = .ok () := hrec
      obtain ⟨found, hfind, hmade⟩ :=
        Disk.isDir_eq_true_iff.mp (isDir_of_makeFirst habove hqempty)
      have hfound := Disk.normalize?_of_find hfind
      rw [hpaves.cwd_eq, hplace] at hfound
      obtain rfl := Option.some.inj hfound
      have hshort : ∀ s ∈ q.segments ++ blanks, s.utf8ByteSize ≤ Disk.nameLimit :=
        List.forall_mem_append.mpr ⟨Disk.short_of_obstacle?_eq_none ho,
          fun s hs => Disk.short_of_blank (hblanks s hs)⟩
      rw [← hnamed] at hnone hpaves hmade
      rw [makeFirst_of_missing h hstart hup hmake hnone hshort habove hpaves hmade]
      rfl

end EndsIn

theorem makeFirst_eq {n : Nat} {init : List String} {last : String} {slashes : Nat} {start : Place}
    (h : p.EndsIn init last slashes) (hup : ".." ∉ init) (hn : p.segments.length < n)
    (hstart : d.start p = .ok start) (hdir : d.HasDir start)
    (hfile : ∀ content, d.kind? (start ++ Place.named init ++ [last]) ≠ some (.file content)) :
    (makeFirst (ancestors n p) d).1 = barred (d.obstacle? start (init ++ [last])) := by
  induction n generalizing p init last slashes with
  | zero => omega
  | succ n ih =>
    obtain ⟨q, blanks, hparent, hinit, hblanks, hend⟩ := h.parent? hup
    have hempty : p.isEmpty = false := (Disk.origin_of_start hstart).1
    simp only [ancestors, hparent]
    have hmissing : d.makeDir p = .error .notFound → d.kind? (start ++ Place.named init) = none →
        (makeFirst (p :: ancestors n q) d).1 = barred (d.obstacle? start (init ++ [last])) := by
      intro hmake hnone
      rw [hinit, Place.named_append_of_blank _ hblanks] at hnone
      -- The parent has names, since the start is there; so it ends in one.
      obtain hnil | ⟨init', last', hq⟩ := hend
      · rw [hnil, List.append_nil, Disk.kind?_eq_dir_iff.mpr hdir] at hnone
        cases hnone
      have hlength : q.segments.length < n := by
        have hp := congrArg List.length h.segments_eq
        have hi := congrArg List.length hinit
        simp only [List.length_append, List.length_cons] at hp hi
        omega
      refine makeFirst_of_parent h hstart hup hparent hinit hblanks hq (by omega) hmake hnone ?_
      have hqup : ".." ∉ init' := fun hmem => hup (by simp [hinit, hq.segments_eq, hmem])
      have hqempty : q.isEmpty = false := by simp [Path.isEmpty, hq.segments_eq]
      have hqstart := Disk.start_of_precedes (Path.parent?_precedes hparent) hqempty hstart
      rw [hq.named_segments, ← List.append_assoc] at hnone
      rw [hq.segments_eq]
      exact ih hq hqup hlength hqstart fun content => by rw [hnone]; simp
    cases hwalk : init.foldlM d.enter start with
    | error e =>
      have hmake := Disk.makeDir_eq_error_of_walk h hstart hwalk
      obtain ⟨a, s, b, mid, rfl, ha, hs⟩ := Disk.exists_of_walk_eq_error hwalk
      have hmid : mid = start ++ Place.named a :=
        ((Disk.walk_eq_ok_iff fun hmem => hup (by simp [hmem])).mp ha).1
      by_cases he : e = .notFound
      · subst he
        refine hmissing hmake ?_
        rw [Place.named_append, ← List.append_assoc, ← hmid]
        exact Disk.kind?_append_of_none (Disk.stepError_eq_notFound_iff.mp hs) _
      · have hfind := Disk.find_eq_error_of_walk h hstart hwalk
        rw [makeFirst_of_error hempty hmake he, Disk.isDir_of_find_error hfind, List.append_assoc,
          List.cons_append, Disk.obstacle?_append, Disk.obstacle?_of_walk ha, Disk.walk_eq ha,
          Disk.obstacle?_of_stepError hs he]
        rfl
    | ok mid =>
      obtain rfl : mid = start ++ Place.named init := ((Disk.walk_eq_ok_iff hup).mp hwalk).1
      by_cases hthere : d.kind? (start ++ Place.named init) = none
      · have hs := Disk.stepError_eq_notFound_iff (s := last) |>.mpr hthere
        exact hmissing (Disk.makeDir_eq_error_of_step h hstart hwalk hs) hthere
      · rw [makeFirst_of_walk h hstart hwalk hfile hthere, Disk.obstacle?_append,
          Disk.obstacle?_of_walk hwalk, Disk.walk_eq hwalk, Option.none_or]

theorem makeDirs_eq {init : List String} {last : String} {slashes : Nat} {start : Place}
    (h : p.EndsIn init last slashes) (hup : ".." ∉ init) (hstart : d.start p = .ok start)
    (hdir : d.HasDir start)
    (hfile : ∀ content, d.kind? (start ++ Place.named init ++ [last]) ≠ some (.file content)) :
    (makeDirs p d).1 = barred (d.obstacle? start (init ++ [last])) :=
  makeFirst_eq h hup (by omega) hstart hdir hfile

theorem removeTree_cases (h : removeTree p d = (.ok (), d')) :
    ∃ place, d.find p = .ok place ∧ d.HasDir place ∧
      (Disk.removeDir { d with files := d.files.put place .empty } p = .error .notFound ∧
          d' = { d with files := d.files.put place .empty } ∨
        Disk.removeDir { d with files := d.files.put place .empty } p = .ok d') := by
  obtain ⟨place, hfind, h⟩ := exists_of_ask_bind_eq_ok h
  obtain ⟨entries, hentries, h⟩ := exists_of_ask_bind_eq_ok h
  obtain ⟨_, e, hmodify, h⟩ := exists_of_bind_eq_ok h
  rw [modify_apply] at hmodify
  cases hmodify
  refine ⟨place, hfind, ⟨entries, Disk.entries_eq_ok_iff.mp hentries⟩, ?_⟩
  have hchange := change_eq_ok h
  split at hchange
  · next hnowhere =>
    cases hchange
    exact .inl ⟨hnowhere, rfl⟩
  · exact .inr hchange

theorem kind?_of_removeTree (h : removeTree p d = (.ok (), d')) :
    ∃ place, d.find p = .ok place ∧ d.HasDir place ∧ d'.cwd = d.cwd ∧
      (∀ q, ¬place <+: q → d'.kind? q = d.kind? q) ∧ ∀ q, q.Below place → d'.kind? q = none := by
  obtain ⟨place, hfind, hdir, hend⟩ := removeTree_cases h
  have hclear := Disk.kind?_clear hfind
  refine ⟨place, hfind, hdir, ?_⟩
  obtain ⟨-, rfl⟩ | hremove := hend
  · refine ⟨rfl, fun q hq => (hclear q).trans (if_neg hq), fun q hq => ?_⟩
    rw [hclear, if_pos hq.1, if_neg hq.2]
  · obtain ⟨place', hplace', -, hkind⟩ := Disk.kind?_of_removeDir hremove
    have hplace := Disk.normalize?_of_find hfind
    obtain rfl := Option.some.inj (hplace'.symm.trans hplace)
    have hcwd : d'.cwd = d.cwd := by
      obtain ⟨_, -, -, rfl⟩ := Disk.removeDir_eq_ok hremove
      rfl
    refine ⟨hcwd, fun q hq => ?_, fun q hq => (hkind q).trans (if_pos hq.1)⟩
    rw [hkind, if_neg hq, hclear, if_neg hq]

section FindsDir

variable (hfind : d.find p = .ok place)
include hfind

theorem removeTree_of_removeDir (hdir : d.HasDir place)
    (hremove : Disk.removeDir { d with files := d.files.put place .empty } p = .ok d') :
    removeTree p d = (.ok (), d') := by
  obtain ⟨entries, hget⟩ := hdir
  rw [removeTree, bind_apply, ask_apply, hfind]
  simp only [bind_apply, ask_apply, Disk.entries_eq_ok_iff.mpr hget, modify_apply, change_apply]
  rw [show Disk.removeDir { d with files := _ } p = _ from hremove]

variable (hwithin : ∀ q, p.Visits d.cwd q → ¬q.Below place)
include hwithin

theorem find_clear : Disk.find { d with files := d.files.put place .empty } p = .ok place := by
  have hkeep : ∀ q, p.Visits d.cwd q → d.HasDir q →
      Disk.HasDir { d with files := d.files.put place .empty } q := by
    intro q hq hqdir
    rw [← Disk.kind?_eq_dir_iff, Disk.kind?_clear hfind]
    split
    · next hle =>
      have heq : q = place := by_contra fun hne => hwithin q hq ⟨hle, hne⟩
      rw [if_pos heq]
    · exact Disk.kind?_eq_dir_iff.mpr hqdir
  exact Disk.find_of_hasDir_visits (d := d) rfl hkeep hfind

theorem removeTree_eq_ok_of_visits {init : List String} {last : String} {slashes : Nat}
    (hdir : d.HasDir place) (h : p.EndsIn init last slashes) :
    ∃ d', removeTree p d = (.ok (), d') ∧ d'.kind? place = none := by
  have hfind' := find_clear hfind hwithin
  obtain ⟨start, mid, hstart, hinit, hstep, rfl⟩ := Disk.walk_of_find_endsIn h hfind'
  have habove : d.HasDir mid := FileTree.HasDir.of_append hdir
  have hempty : Disk.entries { d with files := d.files.put (mid ++ [last]) .empty }
      (mid ++ [last]) = .ok [] :=
    Disk.entries_eq_ok_iff.mpr (FileTree.get?_put habove .empty last [])
  have hremove := removeTree_of_removeDir hfind hdir
    (Disk.removeDir_of_step h hstart hinit hstep hempty)
  exact ⟨_, hremove, (FileTree.kind?_erase (by simp) _).trans (if_pos (List.prefix_refl _))⟩

theorem endsInName_of_removeTree (h : removeTree p d = (.ok (), d')) : p.EndsInName := by
  obtain ⟨mid, last, hparent⟩ := Disk.exists_parent_of_find (find_clear hfind hwithin)
  obtain ⟨place', hplace', -, hend⟩ := removeTree_cases h
  obtain rfl := Except.ok.inj (hfind.symm.trans hplace')
  by_cases hlast : Component.ofSegment? last = some (.name last)
  · obtain ⟨init, slashes, -, hends, -⟩ := Disk.endsIn_of_parent hparent hlast
    exact ⟨init, last, slashes, hends⟩
  · obtain ⟨e, hremove, he⟩ :=
      Disk.removeDir_of_parent_unnamed hparent hlast
    obtain ⟨hnowhere, -⟩ | hgone := hend
    · exact absurd (Except.error.inj (hremove.symm.trans hnowhere)) he
    · cases hremove.symm.trans hgone

end FindsDir

theorem removeTree_eq_ok {init : List String} {last : String} {slashes : Nat}
    (h : p.EndsIn init last slashes) (hp : p.Straight) (hfind : d.find p = .ok place)
    (hdir : d.HasDir place) :
    ∃ d', removeTree p d = (.ok (), d') ∧ d'.kind? place = none := by
  have hplace := Disk.normalize?_of_find hfind
  exact removeTree_eq_ok_of_visits hfind (fun _ => hp.not_below_of_visits hplace) hdir h

end Work

end StaticSite
