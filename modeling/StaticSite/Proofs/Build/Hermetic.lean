import StaticSite.Proofs.Build.Race

namespace StaticSite

namespace Config

variable {c : Config} {d d' : Disk} {out : Place}

section Akin

variable (hplain : c.Plain) (hnamed : c.output.EndsInName) (hvalid : c.validate d.cwd = .ok ())
  (hout : c.output.normalize? d.cwd = some out)
  (h : c.Akin out d d')
include hplain hnamed hvalid hout h

theorem Akin.build (race : Race) :
    (c.build race d').1 = (c.build race d).1 ∧
      ((c.build race d).1.isOk → (c.build race d).2.Alike (c.build race d').2) := by
  obtain ⟨init, last, slashes, hends⟩ := hnamed
  obtain ⟨hresult, htwin⟩ := h.clean hplain.straight hout hends hvalid hplain.spelled
  rw [build_of_clean, build_of_clean]
  cases hclean : c.clean d with
  | mk r cleaned =>
    cases hclean' : c.clean d' with
    | mk r' cleaned' =>
      rw [hclean, hclean'] at hresult htwin
      obtain rfl : r' = r := hresult
      cases r' with
      | error e => exact ⟨rfl, nofun⟩
      | ok u =>
        have hrespects := respects_twin hplain.spelled d.cwd
        have hfill := hrespects.fill_same race cleaned cleaned' (htwin rfl)
        exact ⟨hfill.1, fun _ => hfill.2.alike⟩

theorem Akin.after_build (race : Race) : c.Akin out d (c.build race d').2 := by
  obtain ⟨init, last, slashes, hends⟩ := hnamed
  have hout' : c.output.normalize? d'.cwd = some out := h.cwd_eq ▸ hout
  have hafter := h.after_clean hplain.straight hout hends hvalid hplain.spelled
  rw [build_of_clean]
  cases hclean : c.clean d' with
  | mk r cleaned =>
    rw [hclean] at hafter
    cases r with
    | error e => exact hafter
    | ok u =>
      have hcleaned := cleaned_of_clean hplain.straight hout' hclean
      have hfills := fill_fills hplain ⟨init, last, slashes, hends⟩ (hafter.cwd_eq ▸ hvalid)
        (hafter.cwd_eq ▸ hout) race ⟨⟨rfl, hafter.wellFormed'⟩, hcleaned.hasDir, fun _ _ => rfl⟩
      refine hafter.outside hplain.straight hout hends (hafter.cwd_eq ▸ hfills.sound)
        (fun content => ?_) hfills.kind?_eq
      rw [Disk.kind?_eq_dir_iff.mpr hfills.hasDir]
      nofun

end Akin

end Config

namespace Builder

inductive Call
  | build (race : Race)
  | rebuild (race : Race)

def Call.race : Call → Race
  | build race | rebuild race => race

def call (b : Builder) : Call → StateM Disk (Except StageError BuildReport × Builder)
  | .build race => b.build race
  | .rebuild race => b.rebuild race

def after (b : Builder) (d : Disk) : List Call → Builder × Disk
  | [] => (b, d)
  | a :: calls =>
    let r := b.call a d
    after r.1.2 r.2 calls

variable {b : Builder} {d d' : Disk} {out : Place}

theorem call_eq (b : Builder) (a : Call) (d : Disk) :
    (b.call a d).1.1 = (b.config.build a.race d).1 ∧ (b.call a d).2 = (b.config.build a.race d).2 ∧
      (b.call a d).1.2.config = b.config := by
  cases a <;> exact ⟨rfl, rfl, rfl⟩

theorem akin_after (hplain : b.config.Plain) (hnamed : b.config.output.EndsInName)
    (hvalid : b.config.validate d.cwd = .ok ())
    (hout : b.config.output.normalize? d.cwd = some out) (h : b.config.Akin out d d')
    (calls : List Call) :
    (b.after d' calls).1.config = b.config ∧ b.config.Akin out d (b.after d' calls).2 := by
  induction calls generalizing b d' with
  | nil => exact ⟨rfl, h⟩
  | cons a calls ih =>
    obtain ⟨-, hdisk, hconfig⟩ := b.call_eq a d'
    have hafter := h.after_build hplain hnamed hvalid hout a.race
    rw [← hdisk, ← hconfig] at hafter
    rw [← hconfig] at hplain hnamed hvalid hout ⊢
    exact ih hplain hnamed hvalid hout hafter

/-- Builds depend on nothing but what lies outside the output directory: whatever lies in it, and
whatever has been built before, a build comes to what the first one comes to if the same of several
failing pages is told of. Which one that is makes no difference but that the errors may be those of
two pages. If a build succeeds, the same files are at the same places. -/
theorem build_hermetic (b b' : Builder) (hvalid : b.config.validate d.cwd = .ok ())
    (hplain : b.config.Plain) (hnamed : b.config.output.EndsInName)
    (hout : b.config.output.normalize? d.cwd = some out)
    (hd : d.files.WellFormed) (hd' : d'.files.WellFormed) (hcwd : d'.cwd = d.cwd)
    (hfile : ∀ content, d.kind? out ≠ some (.file content))
    (hfile' : ∀ content, d'.kind? out ≠ some (.file content))
    (hagree : ∀ q, ¬out <+: q → d'.kind? q = d.kind? q) (hconfig : b'.config = b.config)
    (race : Race) (calls : List Call) (a : Call) :
    let first := b.build race d
    let earlier := b'.after d' calls
    let next := earlier.1.call a earlier.2
    next.1.1 = (b.build a.race d).1.1 ∧
      (next.1.1 = first.1.1 ∨ ∃ e e', first.1.1 = .error e ∧ next.1.1 = .error e' ∧
        b.config.FailsAtPage d e ∧ b.config.FailsAtPage d e') ∧
      (first.1.1.isOk → ∀ q, next.2.kind? q = first.2.kind? q) := by
  have hakin : b.config.Akin out d d' := by
    obtain ⟨init, last, slashes, hends⟩ := hnamed
    exact Config.akin_of_outside hplain.straight hout hends hcwd hd hd' hfile hfile' hagree
  rw [← hconfig] at hvalid hplain hnamed hout hakin
  obtain ⟨hearlier, hafter⟩ := akin_after hplain hnamed hvalid hout hakin calls
  obtain ⟨hresult, hdisk, -⟩ := (b'.after d' calls).1.call_eq a (b'.after d' calls).2
  have hbuild := hafter.build hplain hnamed hvalid hout a.race
  rw [hearlier] at hresult hdisk
  rw [hconfig] at hresult hdisk hbuild
  have hnext := hresult.trans hbuild.1
  have hrace := b.config.build_race race a.race d
  refine ⟨hnext, ?_, fun hok q => ?_⟩
  · obtain hsame | ⟨e, e', he, he', hfails, hfails'⟩ := hrace
    · exact .inl (hnext.trans (congrArg Prod.fst hsame))
    · exact .inr ⟨e, e', he, hnext.trans he', hfails, hfails'⟩
  · obtain hsame | ⟨e, _, he, -⟩ := hrace
    · rw [hsame] at hbuild
      exact (congrArg (Disk.kind? · q) hdisk).trans ((hbuild.2 hok).kind?_eq q)
    · have hfirst : (b.build race d).1.1 = .error e := he
      simp [hfirst, Except.isOk, Except.toBool] at hok

end Builder

namespace Config

theorem small_plain : small.Plain where
  spelled := small_spelled
  straight := by
    unfold Path.Straight
    decide +kernel
  sheet := by
    unfold Path.Straight
    decide +kernel

theorem small_named : small.output.EndsInName :=
  ⟨["site"], "dist", 0, by decide +kernel, by decide +kernel⟩

def littered : Disk :=
  { smallDisk with files := smallDisk.files.put ["site", "dist"] (.ofFiles [(["x"], "old")]) }

theorem littered_wellFormed : littered.files.WellFormed :=
  smallDisk_wellFormed.put (FileTree.wellFormed_ofFiles (by decide +kernel)) (by decide +kernel)

theorem littered_agrees (q : Place) (hq : ¬["site", "dist"] <+: q) :
    littered.kind? q = smallDisk.kind? q := by
  have hdir : smallDisk.HasDir ["site"] := Disk.kind?_eq_dir_iff.mp rfl
  exact (Disk.kind?_put (.inr hdir) _ q).trans (if_neg hq)

theorem build_hermetic_small :
    let last : Race := ⟨Fin.last⟩
    let first := (⟨small, .idle⟩ : Builder).build .inOrder smallDisk
    let next := (⟨small, .failed⟩ : Builder).rebuild last littered
    small.validate smallDisk.cwd = .ok () ∧ small.Plain ∧
      small.output.normalize? smallDisk.cwd = some ["site", "dist"] ∧
      smallDisk.files.WellFormed ∧ littered.files.WellFormed ∧ first.1.1.isOk ∧
      next.1.1 = ((⟨small, .idle⟩ : Builder).build last smallDisk).1.1 ∧
      ∀ q, next.2.kind? q = first.2.kind? q := by
  intro last first next
  have hvalid : small.validate smallDisk.cwd = .ok () := by decide +kernel
  have hout : small.output.normalize? smallDisk.cwd = some ["site", "dist"] := by decide +kernel
  have hok : first.1.1.isOk := by decide +kernel
  have hnothing : smallDisk.kind? ["site", "dist"] = none := by decide +kernel
  have hdir : littered.kind? ["site", "dist"] = some .dir := rfl
  have hhermetic := Builder.build_hermetic ⟨small, .idle⟩ ⟨small, .failed⟩ hvalid small_plain
    small_named hout smallDisk_wellFormed littered_wellFormed rfl (by simp [hnothing]) (by simp [hdir])
    littered_agrees rfl .inOrder [] (.rebuild last)
  exact ⟨hvalid, small_plain, hout, smallDisk_wellFormed, littered_wellFormed, hok, hhermetic.1,
    hhermetic.2.2 hok⟩

def smallDotted : Config :=
  { small with paths := { small.paths with output := .ofText "dist/." } }

/-- A directory cannot be made, nor taken away, by a path that ends in a dot. -/
theorem build_dotted_differs :
    smallDotted.validate smallDisk.cwd = .ok () ∧ smallDotted.output.Straight ∧
      (Path.ofText smallDotted.stylesheet).Straight ∧
      smallDotted.output.normalize? smallDisk.cwd = some ["site", "dist"] ∧
      smallDisk.files.WellFormed ∧ littered.files.WellFormed ∧ littered.cwd = smallDisk.cwd ∧
      (∀ q, ¬["site", "dist"] <+: q → littered.kind? q = smallDisk.kind? q) ∧
      smallDisk.kind? ["site", "dist"] = none ∧ littered.kind? ["site", "dist"] = some .dir ∧
      ((⟨smallDotted, .idle⟩ : Builder).build .inOrder littered).1.1 ≠
        ((⟨smallDotted, .idle⟩ : Builder).build .inOrder smallDisk).1.1 := by
  refine ⟨by decide +kernel, ?_, ?_, by decide +kernel, smallDisk_wellFormed, littered_wellFormed, rfl,
    littered_agrees, by decide +kernel, rfl, by decide +kernel⟩
  · unfold Path.Straight
    decide +kernel
  · unfold Path.Straight
    decide +kernel

end Config

end StaticSite
