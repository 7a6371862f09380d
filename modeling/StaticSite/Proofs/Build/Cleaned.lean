import StaticSite.Proofs.Build.Clean
import StaticSite.Proofs.Disk.Alike
import StaticSite.Proofs.Disk.Making

namespace StaticSite

structure Disk.Around (top out : Place) (d d' : Disk) : Prop where
  cwd_eq : d'.cwd = d.cwd
  hasDir : d.HasDir top
  hasDir' : d'.HasDir top
  apart : ∀ q, ¬q <+: out → ¬out <+: q → d'.kind? q = d.kind? q
  file_iff : ∀ q, q <+: out → q ≠ out → ∀ content,
    d'.kind? q = some (.file content) ↔ d.kind? q = some (.file content)

namespace Disk.Around

variable {top out : Place} {d d' d'' : Disk}

theorem refl (h : d.HasDir top) : Around top out d d :=
  ⟨rfl, h, h, fun _ _ _ => rfl, fun _ _ _ _ => .rfl⟩

theorem trans (h : Around top out d d') (h' : Around top out d' d'') : Around top out d d'' where
  cwd_eq := h'.cwd_eq.trans h.cwd_eq
  hasDir := h.hasDir
  hasDir' := h'.hasDir'
  apart q hq hq' := (h'.apart q hq hq').trans (h.apart q hq hq')
  file_iff q hq hne content := (h'.file_iff q hq hne content).trans (h.file_iff q hq hne content)

theorem of_outside (hcwd : d'.cwd = d.cwd) (htop : d.HasDir top) (habove : ¬out <+: top)
    (h : ∀ q, ¬out <+: q → d'.kind? q = d.kind? q) : Around top out d d' where
  cwd_eq := hcwd
  hasDir := htop
  hasDir' := (hasDir_congr (h top habove)).mpr htop
  apart q _ hq := h q hq
  file_iff q hq hne content := by
    rw [h q fun hle => Place.Below.not_prefix ⟨hle, hne⟩ hq]

theorem of_paves (htop : d.HasDir top) (h : Paves out d d') : Around top out d d' where
  cwd_eq := h.cwd_eq
  hasDir := htop
  hasDir' := h.hasDir htop
  apart _ hq _ := h.kind?_of_not_prefix hq
  file_iff _ _ _ content := h.file_iff _ content

end Disk.Around

namespace Config

structure Cleaned (c : Config) (out : Place) (d d' : Disk) : Prop where
  cwd_eq : d'.cwd = d.cwd
  found : d'.find c.output = .ok out
  hasDir : d'.HasDir out
  empty : ∀ q, q.Below out → d'.kind? q = none
  paved : ∀ q, ¬out <+: q → d'.kind? q = d.kind? q ∨
    q <+: out ∧ d.kind? q = none ∧ d'.kind? q = some .dir

variable {c : Config} {out : Place} {d d' : Disk}

theorem cleaned_of_makeDirs (hstraight : c.output.Straight)
    (hout : c.output.normalize? d.cwd = some out) (h : Work.makeDirs c.output d = (.ok (), d'))
    (hempty : d'.find c.output = .ok out → ∀ q, q.Below out → d.kind? q = none) :
    c.Cleaned out d d' := by
  have hpaves := Work.makeDirs_paves hstraight hout
  rw [h] at hpaves
  obtain ⟨hcwd, hfind, hdir⟩ := Work.found_of_makeDirs hout h
  refine ⟨hcwd, hfind, hdir, fun q hq => ?_, fun q _ => hpaves.kind?_eq q⟩
  rw [hpaves.kind?_of_not_prefix hq.not_prefix]
  exact hempty hfind q hq

theorem Cleaned.alike {top : Place} {e e' : Disk} (h : c.Cleaned out d e) (h' : c.Cleaned out d' e')
    (haround : d.Around top out d') : e.Alike e' := by
  refine ⟨(h'.cwd_eq.trans haround.cwd_eq).trans h.cwd_eq.symm, fun q => ?_⟩
  by_cases habove : q <+: out
  · rw [Disk.kind?_eq_dir_iff.mpr (h.hasDir.of_prefix habove),
      Disk.kind?_eq_dir_iff.mpr (h'.hasDir.of_prefix habove)]
  · by_cases hbelow : out <+: q
    · have hq : q.Below out := ⟨hbelow, fun heq => habove (heq ▸ List.prefix_refl _)⟩
      rw [h.empty q hq, h'.empty q hq]
    · have hout := (h.paved q hbelow).resolve_right fun hnew => habove hnew.1
      have hout' := (h'.paved q hbelow).resolve_right fun hnew => habove hnew.1
      rw [hout, hout', haround.apart q habove hbelow]

theorem clean_sound (hspelled : c.output.Spelled) (hout : c.output.normalize? d.cwd = some out)
    (hd : d.files.WellFormed) : (c.clean d).2.SoundAt d.cwd :=
  (clean_meets (Work.keeps_soundAt d.cwd hspelled) (fun _ he => he.1 ▸ hout) d ⟨rfl, hd⟩).1

theorem no_file_of_clean (hout : c.output.normalize? d.cwd = some out)
    (hfile : ∀ content, d.kind? out ≠ some (.file content)) :
    ∀ content, (c.clean d).2.kind? out ≠ some (.file content) := by
  obtain ⟨-, hevolves, -⟩ := clean_meets (Work.keeps_cwd d.cwd c.output) (fun _ he => he ▸ hout) d rfl
  intro content hk
  refine hfile content ?_
  rw [Disk.kind?_eq_file_iff] at hk ⊢
  rw [← hevolves.file?_eq out fun hbelow => hbelow.2 rfl, hk]

theorem clean_bind_eq_ok (h : c.clean d = (.ok (), d')) :
    (d.contains c.output = true ∧ ∃ e, Work.removeTree c.output d = (.ok (), e) ∧
      Work.makeDirs c.output e = (.ok (), d')) ∨
    d.contains c.output = false ∧ Work.makeDirs c.output d = (.ok (), d') := by
  obtain ⟨_, -, h⟩ := Work.exists_of_ask_bind_eq_ok h
  obtain ⟨_, _, hget, h⟩ := Work.exists_of_bind_eq_ok (Work.eq_ok_of_mapError h)
  cases hget
  split at h
  · next hthere =>
    obtain ⟨_, e, hremove, hmake⟩ := Work.exists_of_bind_eq_ok h
    exact .inl ⟨hthere, e, hremove, hmake⟩
  · next hthere => exact .inr ⟨by simpa using hthere, h⟩

theorem cleaned_of_clean (hstraight : c.output.Straight)
    (hout : c.output.normalize? d.cwd = some out) (h : c.clean d = (.ok (), d')) :
    c.Cleaned out d d' := by
  obtain ⟨-, e, hremove, hmake⟩ | ⟨hthere, hmake⟩ := clean_bind_eq_ok h
  · obtain ⟨place, hfind, -, hcwd, houtside, hbelow⟩ := Work.kind?_of_removeTree hremove
    obtain rfl := Option.some.inj ((Disk.normalize?_of_find hfind).symm.trans hout)
    have hcleaned := cleaned_of_makeDirs hstraight (hcwd ▸ hout) hmake fun _ => hbelow
    refine { hcleaned with cwd_eq := hcleaned.cwd_eq.trans hcwd, paved := fun q hq => ?_ }
    rw [← houtside q hq]
    exact hcleaned.paved q hq
  · refine cleaned_of_makeDirs hstraight hout hmake fun hfound q hq => ?_
    -- Something in the output directory would have been there to be taken away.
    by_contra hk
    obtain ⟨k, hk⟩ := Option.ne_none_iff_exists'.mp hk
    have hdir := FileTree.hasDir_of_prefix hk hq.1 (Ne.symm hq.2)
    have hcwd := (Work.makeDirs_paves hstraight hout).cwd_eq
    rw [hmake] at hcwd
    have hfind := Disk.find_of_hasDir_prefix hstraight hcwd.symm
      (fun r hr _ => FileTree.HasDir.of_prefix hdir hr) hfound
    have hcontains : d.contains c.output = true :=
      Disk.contains_eq_true_iff.mpr ⟨out, hfind, by simp [Disk.kind?_eq_dir_iff.mpr hdir]⟩
    simp [hcontains] at hthere

theorem clean_of_valid (hvalid : c.validate d.cwd = .ok ()) :
    c.clean d = Work.mapError .disk (if d.contains c.output
      then (do Work.removeTree c.output; Work.makeDirs c.output)
      else Work.makeDirs c.output) d := by
  rw [clean, Work.bind_apply, Work.ask_apply, hvalid]
  rfl

theorem clean_of_not_contains (hvalid : c.validate d.cwd = .ok ())
    (h : d.contains c.output = false) :
    c.clean d = Work.mapError .disk (Work.makeDirs c.output) d := by
  rw [clean_of_valid hvalid, h]
  rfl

theorem clean_of_start_eq_error {e : DiskError} (hvalid : c.validate d.cwd = .ok ())
    (hstart : d.start c.output = .error e) : c.clean d = (.error (.disk e), d) := by
  obtain ⟨out, hout⟩ := outputAt_of_validate hvalid
  have hempty : c.output.isEmpty = false := (Path.normalize?_eq_some_iff.mp hout.output).1
  have hne : e ≠ .notFound := by
    rintro rfl
    rw [Disk.start, hempty, if_neg (by decide)] at hstart
    split at hstart <;> cases hstart
  have hfind : d.find c.output = .error e := by
    rw [Disk.find, hstart]
    rfl
  have hmake : d.makeDir c.output = .error e := by
    rw [Disk.makeDir, Disk.parent, hstart]
    rfl
  have hcontains : d.contains c.output = false := by
    simp [← Bool.not_eq_true, Disk.contains_eq_true_iff, hfind]
  rw [clean_of_not_contains hvalid hcontains, Work.mapError, Work.makeDirs,
    Work.ancestors, Work.makeFirst_of_error hempty hmake hne, Disk.isDir_of_find_error hfind]
  rfl

def Grounded (c : Config) (d : Disk) : Prop :=
  ∃ start, d.start c.output = .ok start ∧ d.HasDir start

section EndsIn

variable {init : List String} {last : String} {slashes : Nat} {start : Place}
  (hvalid : c.validate d.cwd = .ok ()) (hends : c.output.EndsIn init last slashes)
include hvalid hends

theorem clean_eq (hstraight : c.output.Straight) (hstart : d.start c.output = .ok start)
    (hdir : d.HasDir start)
    (hout : c.output.normalize? d.cwd = some out)
    (hfile : ∀ content, d.kind? out ≠ some (.file content)) :
    (c.clean d).1 = (Work.barred (d.obstacle? start (init ++ [last]))).mapError .disk := by
  have hplace := Disk.place_of_endsIn hends hstraight hstart hout
  have hup : ".." ∉ init := fun hmem => hends.not_up hstraight (List.mem_append_left _ hmem)
  rw [clean_of_valid hvalid]
  refine congrArg (Except.mapError BuildError.disk) ?_
  split
  · next hthere =>
    obtain ⟨place, hfind, hkind⟩ := Disk.contains_eq_true_iff.mp hthere
    obtain rfl := Option.some.inj ((Disk.normalize?_of_find hfind).symm.trans hout)
    have houtdir := Disk.hasDir_of_no_file hkind hfile
    obtain ⟨e, hremove, hgone⟩ := Work.removeTree_eq_ok hends hstraight hfind houtdir
    obtain ⟨place', hfind', -, hcwd, houtside, -⟩ := Work.kind?_of_removeTree hremove
    obtain rfl := Except.ok.inj (hfind.symm.trans hfind')
    have hstart' : e.start c.output = .ok start := (Disk.start_congr hcwd _).trans hstart
    have habove : ∀ q, q <+: start ++ Place.named init → e.kind? q = d.kind? q := by
      refine fun q hq => houtside q fun hle => ?_
      exact Place.not_concat_prefix _ last (hplace ▸ hle.trans hq)
    have hdir' : e.HasDir start :=
      (Disk.hasDir_congr (habove start (List.prefix_append _ _))).mpr hdir
    rw [Work.bind_apply, hremove]
    refine (Work.makeDirs_eq hends hup hstart' hdir' fun content => ?_).trans ?_
    · rw [← hplace, hgone]
      nofun
    · refine congrArg Work.barred
        (Disk.obstacle?_congr (hends.not_up hstraight) fun a ha hne content => ?_)
      have hinit := (List.prefix_concat_iff.mp ha).resolve_left hne
      rw [habove _ (Place.append_named_prefix start hinit)]
  · exact Work.makeDirs_eq hends hup hstart hdir fun content => hplace ▸ hfile content

theorem clean_of_not_hasDir (hstart : d.start c.output = .ok start) (hdir : ¬d.HasDir start) :
    c.clean d = Work.mapError .disk (Work.makeDirs c.output) d ∧
      ∃ e, c.clean d = (.error (.disk e), d) := by
  have hempty : c.output.isEmpty = false := (Disk.origin_of_start hstart).1
  have hfind : ∀ place, d.find c.output ≠ .ok place := by
    intro place hfind
    obtain ⟨start', hstart', hwalk⟩ := exists_of_bind_eq_ok hfind
    obtain rfl := Except.ok.inj (hstart.symm.trans hstart')
    exact hdir (Disk.hasDir_of_walk hwalk (by simp [hends.segments_eq]))
  have hcontains : d.contains c.output = false := by
    simp [← Bool.not_eq_true, Disk.contains_eq_true_iff, hfind]
  have hclean := clean_of_not_contains hvalid hcontains
  have hkept := Work.makeDirs_snd_of_not_hasDir hstart hdir
  refine ⟨hclean, ?_⟩
  rw [hclean, Work.mapError]
  cases hmake : Work.makeDirs c.output d with
  | mk r e =>
    rw [hmake] at hkept
    obtain rfl : e = d := hkept
    cases r with
    | error e => exact ⟨e, rfl⟩
    | ok u =>
      obtain ⟨place, hfound, -⟩ :=
        Disk.isDir_eq_true_iff.mp (Work.isDir_of_makeDirs hmake hempty)
      exact absurd hfound (hfind place)

theorem clean_of_not_grounded (h : ¬c.Grounded d) : ∃ e, c.clean d = (.error (.disk e), d) := by
  cases hstart : d.start c.output with
  | error e => exact ⟨e, clean_of_start_eq_error hvalid hstart⟩
  | ok start => exact (clean_of_not_hasDir hvalid hends hstart fun hdir => h ⟨start, hstart, hdir⟩).2

end EndsIn

/-- Disks on which builds come to the same: where there is a directory from which the way to the output
directory leads on, directories on that way may be missing on one of them. -/
structure Akin (c : Config) (out : Place) (d d' : Disk) : Prop where
  cwd_eq : d'.cwd = d.cwd
  wellFormed : d.files.WellFormed
  wellFormed' : d'.files.WellFormed
  no_file : ∀ content, d.kind? out ≠ some (.file content)
  no_file' : ∀ content, d'.kind? out ≠ some (.file content)
  near : (∃ start, d.start c.output = .ok start ∧ d.Around start out d') ∨
    ¬c.Grounded d ∧ ∀ q, ¬out <+: q → d'.kind? q = d.kind? q

section Straight

variable {init : List String} {last : String} {slashes : Nat}
  (hstraight : c.output.Straight) (hout : c.output.normalize? d.cwd = some out)
include hstraight hout

theorem keeps_around {start : Place} (habove : ¬out <+: start) :
    Work.Keeps (fun e => d.Around start out e) c.output := by
  have hplace : ∀ {e : Disk} {place : Place}, d.Around start out e →
      c.output.normalize? e.cwd = some place → place = out := fun he hplace =>
    Option.some.inj ((he.cwd_eq ▸ hplace).symm.trans hout)
  refine ⟨fun q e e' hq he hok => ?_, fun e e' he hok => ?_, fun e place he hfind => ?_,
    fun content e e' he hok => ?_⟩
  · exact he.trans (.of_paves he.hasDir' (Disk.paves_of_makeDir hstraight (he.cwd_eq ▸ hout) hq hok))
  · obtain ⟨place, hremoved, -, hkind⟩ := Disk.kind?_of_removeDir hok
    obtain rfl := hplace he hremoved
    have hcwd := (Work.keeps_cwd e.cwd c.output).removeDir e e' rfl hok
    exact he.trans (.of_outside hcwd he.hasDir' habove fun q hq => (hkind q).trans (if_neg hq))
  · obtain rfl := hplace he (Disk.normalize?_of_find hfind)
    exact he.trans (.of_outside rfl he.hasDir' habove fun q hq =>
      (Disk.kind?_clear hfind q).trans (if_neg hq))
  · obtain ⟨place, hfind, -, hkind⟩ := Disk.kind?_of_write hok
    obtain rfl := hplace he (Disk.normalize?_of_find hfind)
    have hcwd := (Work.keeps_cwd e.cwd c.output).write content e e' rfl hok
    exact he.trans (.of_outside hcwd he.hasDir' habove fun q hq =>
      (hkind q).trans (if_neg (Disk.ne_of_outside hq)))

theorem clean_around {start : Place} (hdir : d.HasDir start) (habove : ¬out <+: start) :
    d.Around start out (c.clean d).2 :=
  (clean_meets (keeps_around hstraight hout habove) (fun _ he => he.cwd_eq ▸ hout) d (.refl hdir)).1

variable (hends : c.output.EndsIn init last slashes)
include hends

theorem akin_of_outside (hcwd : d'.cwd = d.cwd) (hd : d.files.WellFormed) (hd' : d'.files.WellFormed)
    (hfile : ∀ content, d.kind? out ≠ some (.file content))
    (hfile' : ∀ content, d'.kind? out ≠ some (.file content))
    (h : ∀ q, ¬out <+: q → d'.kind? q = d.kind? q) : c.Akin out d d' := by
  refine ⟨hcwd, hd, hd', hfile, hfile', ?_⟩
  by_cases hgrounded : c.Grounded d
  · obtain ⟨start, hstart, hdir⟩ := hgrounded
    have habove := Disk.not_prefix_start hends hstraight hstart hout
    exact .inl ⟨start, hstart, .of_outside hcwd hdir habove h⟩
  · exact .inr ⟨hgrounded, h⟩

theorem Akin.outside (h : c.Akin out d d') {d'' : Disk} (hsound : d''.SoundAt d.cwd)
    (hfile : ∀ content, d''.kind? out ≠ some (.file content))
    (hagree : ∀ q, ¬out <+: q → d''.kind? q = d'.kind? q) : c.Akin out d d'' := by
  refine ⟨hsound.1, h.wellFormed, hsound.2, h.no_file, hfile, ?_⟩
  obtain ⟨start, hstart, haround⟩ | ⟨hground, hsame⟩ := h.near
  · have habove := Disk.not_prefix_start hends hstraight hstart hout
    have hcwd : d''.cwd = d'.cwd := hsound.1.trans h.cwd_eq.symm
    exact .inl ⟨start, hstart, haround.trans (.of_outside hcwd haround.hasDir' habove hagree)⟩
  · exact .inr ⟨hground, fun q hq => (hagree q hq).trans (hsame q hq)⟩

variable (hvalid : c.validate d.cwd = .ok ()) (hspelled : c.output.Spelled) (h : c.Akin out d d')
include hvalid hspelled h

theorem Akin.after_clean : c.Akin out d (c.clean d').2 := by
  have hvalid' : c.validate d'.cwd = .ok () := h.cwd_eq ▸ hvalid
  have hout' : c.output.normalize? d'.cwd = some out := h.cwd_eq ▸ hout
  have hsound := clean_sound hspelled hout' h.wellFormed'
  obtain ⟨start, hstart, haround⟩ | ⟨hground, hsame⟩ := h.near
  · have habove := Disk.not_prefix_start hends hstraight hstart hout
    exact ⟨hsound.1.trans h.cwd_eq, h.wellFormed, hsound.2, h.no_file,
      no_file_of_clean hout' h.no_file', .inl ⟨start, hstart,
        haround.trans (clean_around hstraight hout' haround.hasDir' habove)⟩⟩
  · have hground' : ¬c.Grounded d' := by
      rintro ⟨start, hstart', hdir'⟩
      have hstart := (Disk.start_congr h.cwd_eq c.output).symm.trans hstart'
      have habove := Disk.not_prefix_start hends hstraight hstart hout
      exact hground ⟨start, hstart, (Disk.hasDir_congr (hsame start habove)).mp hdir'⟩
    obtain ⟨e, hclean⟩ := clean_of_not_grounded hvalid' hends hground'
    rwa [hclean]

theorem clean_of_around {start : Place} (hstart : d.start c.output = .ok start)
    (haround : d.Around start out d') :
    (c.clean d').1 = (c.clean d).1 ∧
      ((c.clean d).1 = .ok () → (c.clean d).2.Twin d.cwd (c.clean d').2) := by
  have hvalid' : c.validate d'.cwd = .ok () := h.cwd_eq ▸ hvalid
  have hout' : c.output.normalize? d'.cwd = some out := h.cwd_eq ▸ hout
  have hstart' : d'.start c.output = .ok start := (Disk.start_congr h.cwd_eq _).trans hstart
  have hplace := Disk.place_of_endsIn hends hstraight hstart hout
  have hobstacle : d'.obstacle? start (init ++ [last]) = d.obstacle? start (init ++ [last]) := by
    refine Disk.obstacle?_congr (hends.not_up hstraight) fun a ha hne content => ?_
    have hinit := Place.append_named_prefix start ((List.prefix_concat_iff.mp ha).resolve_left hne)
    refine haround.file_iff _ (hplace ▸ hinit.trans (List.prefix_append _ _)) (fun heq => ?_) content
    exact Place.not_concat_prefix _ last (hplace ▸ heq ▸ hinit)
  have hsame : (c.clean d').1 = (c.clean d).1 := by
    rw [clean_eq hvalid hends hstraight hstart haround.hasDir hout h.no_file,
      clean_eq hvalid' hends hstraight hstart' haround.hasDir' hout' h.no_file', hobstacle]
  refine ⟨hsame, fun hok => ?_⟩
  have hcleaned := cleaned_of_clean hstraight hout (Prod.ext hok rfl)
  have hcleaned' := cleaned_of_clean hstraight hout' (Prod.ext (hsame.trans hok) rfl)
  exact ⟨clean_sound hspelled hout h.wellFormed,
    h.cwd_eq ▸ clean_sound hspelled hout' h.wellFormed', hcleaned.alike hcleaned' haround⟩

theorem clean_of_outside (hground : ¬c.Grounded d) (hagree : ∀ q, ¬out <+: q → d'.kind? q = d.kind? q) :
    (c.clean d').1 = (c.clean d).1 := by
  have hvalid' : c.validate d'.cwd = .ok () := h.cwd_eq ▸ hvalid
  cases hstart : d.start c.output with
  | error e =>
    rw [clean_of_start_eq_error hvalid hstart,
      clean_of_start_eq_error hvalid' ((Disk.start_congr h.cwd_eq _).trans hstart)]
  | ok start =>
    have hdir : ¬d.HasDir start := fun hdir => hground ⟨start, hstart, hdir⟩
    have hplace := Disk.place_of_endsIn hends hstraight hstart hout
    have hbelow : start <+: out := hplace ▸ (List.prefix_append _ _).trans (List.prefix_append _ _)
    have habove := Disk.not_prefix_start hends hstraight hstart hout
    have hdir' : ¬d'.HasDir start := by rwa [Disk.hasDir_congr (hagree start habove)]
    -- Nothing lies below a place that is no directory, so the disks are alike throughout.
    have halike : d.Alike d' := by
      refine ⟨h.cwd_eq, fun q => ?_⟩
      by_cases hq : out <+: q
      · have hne : q ≠ start := fun heq => habove (heq ▸ hq)
        rw [Disk.kind?_eq_none_of_above hdir (hbelow.trans hq) hne,
          Disk.kind?_eq_none_of_above hdir' (hbelow.trans hq) hne]
      · exact hagree q hq
    obtain ⟨hclean, -⟩ := clean_of_not_hasDir hvalid hends hstart hdir
    obtain ⟨hclean', -⟩ := clean_of_not_hasDir hvalid' hends
      ((Disk.start_congr h.cwd_eq _).trans hstart) hdir'
    have htwin : d.Twin d.cwd d' := ⟨⟨rfl, h.wellFormed⟩, ⟨h.cwd_eq, h.wellFormed'⟩, halike⟩
    have hsame := Work.makeDirs_same hspelled d d' htwin
    rw [hclean, hclean', Work.mapError, Work.mapError, hsame.1]

theorem Akin.clean :
    (c.clean d').1 = (c.clean d).1 ∧
      ((c.clean d).1 = .ok () → (c.clean d).2.Twin d.cwd (c.clean d').2) := by
  obtain ⟨start, hstart, haround⟩ | ⟨hground, hagree⟩ := h.near
  · exact clean_of_around hstraight hout hends hvalid hspelled h hstart haround
  · refine ⟨clean_of_outside hstraight hout hends hvalid hspelled h hground hagree, fun hok => ?_⟩
    obtain ⟨e, herror⟩ := clean_of_not_grounded hvalid hends hground
    rw [herror] at hok
    cases hok

end Straight

end Config

end StaticSite
