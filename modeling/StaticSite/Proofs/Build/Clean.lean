import StaticSite.Build.Stage
import StaticSite.Proofs.Config.Output
import StaticSite.Proofs.Disk.Work

namespace StaticSite.Config

variable {c : Config} {cwd out : Place}

theorem clean_of_invalid {d : Disk} {e : LoadError} (h : c.validate d.cwd = .error e) :
    c.clean d = (.error (.load e), d) := by
  rw [clean, Work.bind_apply, Work.ask_apply, h]
  rfl

theorem validate_of_clean {d d' : Disk} (h : c.clean d = (.ok (), d')) :
    c.validate d.cwd = .ok () := by
  cases hvalid : c.validate d.cwd with
  | ok u => rfl
  | error e =>
    rw [clean_of_invalid hvalid] at h
    cases congrArg Prod.fst h

theorem clean_meets {I : Disk → Prop} (hkeeps : Work.Keeps I c.output)
    (hout : ∀ d, I d → c.output.normalize? d.cwd = some out) :
    c.clean.Meets I (·.Below out) (out <+: ·) fun _ => True := by
  refine (Work.meets_ask fun _ _ _ _ => trivial).bind fun _ (_ : True) => Work.Meets.mapError ?_ _
  have hdirs : (Work.makeDirs c.output).Meets I (·.Below out) (out <+: ·) fun _ => True :=
    Work.makeDirs_meets hkeeps.makeDir
  refine Work.meets_get.bind fun d _ => ?_
  split
  · exact (Work.removeTree_meets hkeeps hout).bind fun _ _ => hdirs
  · exact hdirs

/-- The root is still there, and the files in it, what a build reads, and every file outside the
output directory are what they were. -/
structure Spares (c : Config) (d d' : Disk) : Prop where
  root : ∀ root, c.root.normalize? d.cwd = some root → d.HasDir root → d'.HasDir root
  beside : ∀ root, c.root.normalize? d.cwd = some root →
    ∀ name, d'.file? (root ++ [name]) = d.file? (root ++ [name])
  tokens : ∀ place, c.tokens.normalize? d.cwd = some place → d'.file? place = d.file? place
  source : ∀ source ∈ c.sources, ∀ place, source.normalize? d.cwd = some place →
    ∀ q, place <+: q → d'.file? q = d.file? q
  outside : ∀ out, c.output.normalize? d.cwd = some out →
    ∀ q, ¬out <+: q → d'.file? q = d.file? q

theorem spares_refl (c : Config) (d : Disk) : c.Spares d d where
  root _ _ := id
  beside _ _ _ := rfl
  tokens _ _ := rfl
  source _ _ _ _ _ _ := rfl
  outside _ _ _ _ := rfl

theorem OutputAt.spares {d d' : Disk} (h : c.OutputAt d.cwd out)
    (hevolves : d.Evolves (·.Below out) (out <+: ·) d') : c.Spares d d' where
  root root hroot := by
    obtain ⟨root', hroot', habove⟩ := h.root
    obtain rfl := Option.some.inj (hroot.symm.trans hroot')
    exact hevolves.hasDir root habove
  beside root hroot name := by
    obtain ⟨root', hroot', habove⟩ := h.root
    obtain rfl := Option.some.inj (hroot.symm.trans hroot')
    refine hevolves.file?_eq _ fun ⟨hunder, hne⟩ => ?_
    obtain heq | hroot := List.prefix_concat_iff.mp hunder
    · exact hne heq.symm
    · exact habove hroot
  tokens place hplace := by
    obtain ⟨place', hplace', hholds⟩ := h.tokens
    obtain rfl := Option.some.inj (hplace.symm.trans hplace')
    exact hevolves.file?_eq place (hholds ·.1)
  source source hsource place hplace q hq :=
    hevolves.file?_eq q (h.not_prefix hsource hplace hq ·.1)
  outside out' hout' q hq := by
    obtain rfl := Option.some.inj (h.output.symm.trans hout')
    exact hevolves.file?_eq q (hq ·.1)

/-- Cleaning takes away nothing but what lies in the output directory, and nothing at all if the
configuration is not valid. -/
theorem clean_spares (c : Config) (d : Disk) :
    (((∃ e, (c.clean d).1 = .error e) ∧ (c.clean d).2 = d) ∨
      ∃ out, c.output.normalize? d.cwd = some out ∧
        ∀ place, d.Removed (c.clean d).2 place → out <+: place) ∧
    c.Spares d (c.clean d).2 := by
  cases hvalid : c.validate d.cwd with
  | error e =>
    rw [clean_of_invalid hvalid]
    exact ⟨.inl ⟨⟨_, rfl⟩, rfl⟩, c.spares_refl d⟩
  | ok u =>
    obtain ⟨out, hout⟩ := outputAt_of_validate hvalid
    obtain ⟨-, hevolves, -⟩ := clean_meets (Work.keeps_cwd d.cwd c.output)
      (fun d' hd' => hd' ▸ hout.output) d rfl
    exact ⟨.inr ⟨out, hout.output, fun place => hevolves.of_removed fun q => And.left⟩,
      hout.spares hevolves⟩

end StaticSite.Config
