import StaticSite.Proofs.Build.Hermetic
import StaticSite.Proofs.Disk.Passable

namespace StaticSite

def Disk.Bare (d : Disk) (out : Place) : Prop := ∀ q, q.Below out → d.kind? q = none

/-- The way to a directory starts outside of it, never leads into it, and ends in its name. -/
structure Path.Approaches (p : Path) (cwd out : Place) : Prop where
  endsInName : p.EndsInName
  starts_outside : ¬out <+: p.origin cwd
  stays_outside : ∀ q, p.Visits cwd q → ¬q.Below out

theorem Path.Straight.approaches {p : Path} {cwd out : Place} (h : p.Straight)
    (hnamed : p.EndsInName) (hout : p.normalize? cwd = some out) : p.Approaches cwd out := by
  refine ⟨hnamed, fun habove => ?_, fun _ => h.not_below_of_visits hout⟩
  obtain ⟨init, last, slashes, hends⟩ := hnamed
  rw [h.eq_of_normalize? hout, hends.named_segments, ← List.append_assoc] at habove
  exact Place.not_concat_prefix _ last (habove.trans (List.prefix_append _ _))

namespace Config

variable {c : Config} {out : Place} {d d' : Disk}

theorem found_of_clean (h : c.clean d = (.ok (), d')) :
    ∃ out, c.output.normalize? d.cwd = some out ∧ d'.cwd = d.cwd ∧
      d'.find c.output = .ok out ∧ d'.HasDir out := by
  obtain ⟨out, hout⟩ := outputAt_of_validate (validate_of_clean h)
  refine ⟨out, hout.output, ?_⟩
  obtain ⟨-, e, hremove, hmake⟩ | ⟨-, hmake⟩ := clean_bind_eq_ok h
  · obtain ⟨-, -, -, hcwd, -⟩ := Work.kind?_of_removeTree hremove
    rw [← hcwd]
    exact Work.found_of_makeDirs (hcwd ▸ hout.output) hmake
  · exact Work.found_of_makeDirs hout.output hmake

theorem bare_of_clean (hout : c.output.normalize? d.cwd = some out)
    (hstays : ∀ q, c.output.Visits d.cwd q → ¬q.Below out) (h : c.clean d = (.ok (), d'))
    (hthere : d.contains c.output = true ∨ d.Bare out) : d'.Bare out := by
  intro q hq
  have hnot : ¬c.output.Visits d.cwd q := fun hvisits => hstays q hvisits hq
  obtain ⟨-, e, hremove, hmake⟩ | ⟨hmissing, hmake⟩ := clean_bind_eq_ok h
  · obtain ⟨place, hfind, -, hcwd, -, hbelow⟩ := Work.kind?_of_removeTree hremove
    obtain rfl := Option.some.inj ((Disk.normalize?_of_find hfind).symm.trans hout)
    exact (Work.kind?_of_makeDirs hmake (hcwd ▸ hnot)).trans (hbelow q hq)
  · exact (Work.kind?_of_makeDirs hmake hnot).trans (hthere.resolve_left (by simp [hmissing]) q hq)

section Found

variable (hfind : d.find c.output = .ok out) (hdir : d.HasDir out)
include hfind hdir

theorem contains_of_found : d.contains c.output = true :=
  Disk.contains_eq_true_iff.mpr ⟨out, hfind, by simp [Disk.kind?_eq_dir_iff.mpr hdir]⟩

theorem passable_of_removeTree (happroaches : c.output.Approaches d.cwd out)
    (hremove : Work.removeTree c.output d = (.ok (), d')) (hgone : d'.kind? out = none) :
    d'.Passable c.output := by
  obtain ⟨place, hplace, -, hcwd, houtside, hbelow⟩ := Work.kind?_of_removeTree hremove
  obtain rfl := Except.ok.inj (hfind.symm.trans hplace)
  obtain ⟨start, hstart, hwalk⟩ := exists_of_bind_eq_ok hfind
  obtain rfl := (Disk.origin_of_start hstart).2
  refine ⟨?_, ?_, Disk.short_of_walk hwalk, fun q hq content hk => ?_⟩
  · rw [Disk.start_congr hcwd, hcwd]
    exact hstart
  · rw [hcwd, Disk.hasDir_congr (houtside _ happroaches.starts_outside)]
    exact Disk.hasDir_of_visits hfind hdir (c.output.visits_origin d.cwd)
  · rw [hcwd] at hq
    by_cases hwithin : out <+: q
    · obtain rfl : q = out := by_contra fun hne => happroaches.stays_outside q hq ⟨hwithin, hne⟩
      simp [hgone] at hk
    · have hqdir := Disk.hasDir_of_visits hfind hdir hq
      rw [houtside q hwithin, Disk.kind?_eq_dir_iff.mpr hqdir] at hk
      cases hk

variable (hbare : d.Bare out)
include hbare

theorem stays_outside_of_bare : ∀ q, c.output.Visits d.cwd q → ¬q.Below out := by
  intro q hvisits hbelow
  have hq := Disk.hasDir_of_visits hfind hdir hvisits
  rw [← Disk.kind?_eq_dir_iff, hbare q hbelow] at hq
  cases hq

theorem alike_of_renewed {e : Disk} (hremove : Work.removeTree c.output d = (.ok (), e))
    (hmake : Work.makeDirs c.output e = (.ok (), d')) (hout : d'.HasDir out) : d.Alike d' := by
  obtain ⟨place, hplace, -, hcwd, houtside, hbelow⟩ := Work.kind?_of_removeTree hremove
  obtain rfl := Except.ok.inj (hfind.symm.trans hplace)
  have hgrows := Work.grows_of_makeDirs hmake
  have hkept : ∀ q, ¬c.output.Visits d.cwd q → d'.kind? q = e.kind? q :=
    fun q hq => Work.kind?_of_makeDirs hmake (hcwd.symm ▸ hq)
  refine ⟨hgrows.cwd_eq.trans hcwd, fun q => ?_⟩
  by_cases hvisits : c.output.Visits d.cwd q
  · have hq := Disk.hasDir_of_visits hfind hdir hvisits
    refine (Disk.kind?_eq_dir_iff.mpr ?_).trans (Disk.kind?_eq_dir_iff.mpr hq).symm
    by_cases hwithin : out <+: q
    · obtain rfl : q = out :=
        by_contra fun hne => stays_outside_of_bare hfind hdir hbare q hvisits ⟨hwithin, hne⟩
      exact hout
    · exact hgrows.hasDir q id ((Disk.hasDir_congr (houtside q hwithin)).mpr hq)
  · rw [hkept q hvisits]
    by_cases hwithin : out <+: q
    · have hbelow' : q.Below out := by
        refine ⟨hwithin, fun heq => hvisits (heq ▸ ?_)⟩
        exact Path.visits_of_normalize? (Disk.normalize?_of_find hfind)
      rw [hbelow q hbelow', hbare q hbelow']
    · exact houtside q hwithin

theorem clean_of_approaches (hvalid : c.validate d.cwd = .ok ())
    (happroaches : c.output.Approaches d.cwd out) :
    ∃ d', c.clean d = (.ok (), d') ∧ d.Alike d' := by
  obtain ⟨init, last, slashes, hends⟩ := happroaches.endsInName
  obtain ⟨e, hremove, hgone⟩ :=
    Work.removeTree_eq_ok_of_visits hfind happroaches.stays_outside hdir hends
  have hpassable := passable_of_removeTree hfind hdir happroaches hremove hgone
  obtain ⟨d', hmake⟩ : ∃ d', Work.makeDirs c.output e = (.ok (), d') :=
    ⟨_, Prod.ext (Work.makeDirs_of_passable hpassable happroaches.endsInName) rfl⟩
  have hclean : c.clean d = (.ok (), d') := by
    rw [clean_of_valid hvalid, contains_of_found hfind hdir]
    simp [Work.mapError, Work.bind_apply, hremove, hmake, Except.mapError]
  obtain ⟨place, hplace, -, -, hout⟩ := found_of_clean hclean
  obtain rfl := Option.some.inj ((Disk.normalize?_of_find hfind).symm.trans hplace)
  exact ⟨d', hclean, alike_of_renewed hfind hdir hbare hremove hmake hout⟩

theorem starts_outside_of_renewed {e : Disk}
    (hremove : Work.removeTree c.output d = (.ok (), e)) (hgone : e.kind? out = none)
    (hmake : Work.makeDirs c.output e = (.ok (), d')) : ¬out <+: c.output.origin d.cwd := by
  intro hwithin
  obtain ⟨start, hstart, -⟩ := exists_of_bind_eq_ok hfind
  have hsame : start = out := by
    rw [(Disk.origin_of_start hstart).2]
    have hstays := stays_outside_of_bare hfind hdir hbare
    exact by_contra fun hne => hstays _ (c.output.visits_origin d.cwd) ⟨hwithin, hne⟩
  obtain ⟨-, -, -, hcwd, -⟩ := Work.kind?_of_removeTree hremove
  have hnodir : ¬e.HasDir start := by simp [← Disk.kind?_eq_dir_iff, hsame, hgone]
  have hkept := Work.makeDirs_snd_of_not_hasDir ((Disk.start_congr hcwd _).trans hstart) hnodir
  obtain ⟨-, -, hout⟩ :=
    Work.found_of_makeDirs (hcwd.symm ▸ Disk.normalize?_of_find hfind) hmake
  rw [hmake] at hkept
  exact hnodir (hsame ▸ hkept ▸ hout)

theorem approaches_of_clean (h : c.clean d = (.ok (), d')) : c.output.Approaches d.cwd out := by
  have hstays := stays_outside_of_bare hfind hdir hbare
  obtain ⟨-, e, hremove, hmake⟩ | ⟨hmissing, -⟩ := clean_bind_eq_ok h
  · obtain ⟨init, last, slashes, hends⟩ := Work.endsInName_of_removeTree hfind hstays hremove
    obtain ⟨e', hremove', hgone⟩ := Work.removeTree_eq_ok_of_visits hfind hstays hdir hends
    obtain rfl : e = e' := congrArg Prod.snd (hremove.symm.trans hremove')
    have hnamed : c.output.EndsInName := ⟨init, last, slashes, hends⟩
    exact ⟨hnamed, starts_outside_of_renewed hfind hdir hbare hremove hgone hmake, hstays⟩
  · rw [contains_of_found hfind hdir] at hmissing
    cases hmissing

end Found

/-- A cleaning that succeeds leaves an output directory. That is empty, and is left as it is by a
further cleaning, exactly if the way to it starts outside of it, never leads into it and ends in its
name, and before the cleaning it was found that way or was empty. -/
theorem clean_renews_iff (h : c.clean d = (.ok (), d')) :
    ∃ out, c.output.normalize? d.cwd = some out ∧ d'.find c.output = .ok out ∧ d'.HasDir out ∧
      (d'.Bare out ∧ (∃ d'', c.clean d' = (.ok (), d'') ∧ d'.Alike d'') ↔
        c.output.Approaches d.cwd out ∧ (d.contains c.output = true ∨ d.Bare out)) := by
  obtain ⟨out, hout, hcwd, hfind, hdir⟩ := found_of_clean h
  refine ⟨out, hout, hfind, hdir, ?_, ?_⟩
  · rintro ⟨hbare, d'', hagain, -⟩
    have happroaches := approaches_of_clean hfind hdir hbare hagain
    rw [hcwd] at happroaches
    refine ⟨happroaches, or_iff_not_imp_left.mpr fun hmissing q hq => ?_⟩
    obtain ⟨hthere, -⟩ | ⟨-, hmake⟩ := clean_bind_eq_ok h
    · exact absurd hthere hmissing
    · have hnot : ¬c.output.Visits d.cwd q := fun hvisits => happroaches.stays_outside q hvisits hq
      exact (Work.kind?_of_makeDirs hmake hnot).symm.trans (hbare q hq)
  · rintro ⟨happroaches, hthere⟩
    have hbare := bare_of_clean hout happroaches.stays_outside h hthere
    refine ⟨hbare, clean_of_approaches hfind hdir hbare ?_ (hcwd ▸ happroaches)⟩
    rw [hcwd]
    exact validate_of_clean h

theorem clean_renews_littered :
    let d := (small.clean littered).2
    (small.clean littered).1.isOk ∧ d.Bare ["site", "dist"] ∧
      ∃ d', small.clean d = (.ok (), d') ∧ d.Alike d' := by
  intro d
  have hok : small.clean littered = (.ok (), d) := Prod.ext (by decide +kernel) rfl
  have hplace : small.output.normalize? littered.cwd = some ["site", "dist"] := by decide +kernel
  obtain ⟨out, hout, -, -, hrenews⟩ := clean_renews_iff hok
  obtain rfl := Option.some.inj (hplace.symm.trans hout)
  exact ⟨by decide +kernel, hrenews.mpr
    ⟨small_plain.straight.approaches small_named hout, .inl (by decide +kernel)⟩⟩

def smallDetour : Config :=
  { small with paths := { small.paths with output := .ofText "a/../dist" } }

/-- Where that other directory is missing, a cleaning makes it and takes nothing away; only the next
cleaning finds what lies in the output directory. -/
theorem clean_keeps_old :
    let d := (smallDetour.clean littered).2
    smallDetour.validate littered.cwd = .ok () ∧ littered.files.WellFormed ∧
      smallDetour.output.normalize? littered.cwd = some ["site", "dist"] ∧
      (smallDetour.clean littered).1.isOk ∧ ¬d.Bare ["site", "dist"] ∧
      (smallDetour.clean d).1.isOk ∧ ¬d.Alike (smallDetour.clean d).2 := by
  intro d
  have hthere : (d.kind? ["site", "dist", "x"]).isSome := by decide +kernel
  have hgone : ((smallDetour.clean d).2.kind? ["site", "dist", "x"]).isSome = false := by
    decide +kernel
  refine ⟨by decide +kernel, littered_wellFormed, by decide +kernel, by decide +kernel,
    fun hbare => ?_, by decide +kernel, fun halike => ?_⟩
  · have hnone : d.kind? ["site", "dist", "x"] = none :=
      hbare _ (Place.below_append (List.cons_ne_nil "x" []))
    simp [hnone] at hthere
  · rw [halike.kind?_eq, hthere] at hgone
    cases hgone

end Config

end StaticSite
