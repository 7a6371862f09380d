import StaticSite.Disk.Work
import StaticSite.Proofs.Disk.Evolve

/-! Contracts of work on a disk, which hold also where it fails. -/

namespace StaticSite.Work

theorem bind_apply (x : Work ε α) (f : α → Work ε β) (d : Disk) :
    (x >>= f) d = match x d with
      | (.ok a, d') => f a d'
      | (.error e, d') => (.error e, d') := by
  simp only [bind, ExceptT.bind, ExceptT.mk, StateT.bind]
  cases x d with
  | mk r d' => cases r <;> rfl

theorem bind_apply_congr {x y : Work ε α} {f g : α → Work ε β} {d : Disk} (hx : x d = y d)
    (hf : ∀ a e, y d = (.ok a, e) → f a e = g a e) : (x >>= f) d = (y >>= g) d := by
  rw [bind_apply, bind_apply, hx]
  cases h : y d with
  | mk r e =>
    cases r with
    | error _ => rfl
    | ok a => exact hf a e h

theorem pure_apply (a : α) (d : Disk) : (pure a : Work ε α) d = (.ok a, d) := rfl

theorem get_apply (d : Disk) : (get : Work ε Disk) d = (.ok d, d) := rfl

theorem modify_apply (f : Disk → Disk) (d : Disk) :
    (modify f : Work ε PUnit) d = (.ok (), f d) := rfl

theorem ask_apply (f : Disk → Except ε α) (d : Disk) : ask f d = (f d, d) := by
  rw [ask, bind_apply, get_apply]
  dsimp only
  cases f d <;> rfl

theorem change_apply (f : Disk → Except ε Disk) (d : Disk) :
    change f d = match f d with
      | .ok d' => (.ok (), d')
      | .error e => (.error e, d) := by
  rw [change, bind_apply, get_apply]
  dsimp only
  cases f d <;> rfl

section Value

variable {d d' : Disk}

theorem exists_of_bind_eq_ok {x : Work ε α} {f : α → Work ε β} {b : β}
    (h : (x >>= f) d = (.ok b, d')) : ∃ a d₁, x d = (.ok a, d₁) ∧ f a d₁ = (.ok b, d') := by
  rw [bind_apply] at h
  cases hx : x d with
  | mk r d₁ =>
    rw [hx] at h
    cases r with
    | error e => cases congrArg Prod.fst h
    | ok a => exact ⟨a, d₁, rfl, h⟩

theorem eq_ok_of_mapError {x : Work ε α} {f : ε → ε'} {a : α} (h : x.mapError f d = (.ok a, d')) :
    x d = (.ok a, d') := by
  obtain ⟨hr, rfl⟩ := Prod.mk.inj h
  exact Prod.ext (StaticSite.eq_ok_of_mapError hr) rfl

theorem exists_of_ask_bind_eq_ok {f : Disk → Except ε α} {g : α → Work ε β} {b : β}
    (h : (ask f >>= g) d = (.ok b, d')) : ∃ a, f d = .ok a ∧ g a d = (.ok b, d') := by
  rw [bind_apply, ask_apply] at h
  cases hf : f d with
  | error e =>
    rw [hf] at h
    cases congrArg Prod.fst h
  | ok a =>
    rw [hf] at h
    exact ⟨a, rfl, h⟩

theorem change_eq_ok {f : Disk → Except ε Disk} (h : change f d = (.ok (), d')) :
    f d = .ok d' := by
  rw [change_apply] at h
  split at h
  · next d₁ hf => exact hf.trans (congrArg Except.ok (congrArg Prod.snd h))
  · cases congrArg Prod.fst h

end Value

/-- From a disk in `I` a work comes to one in `I` that has evolved, and to a value in `Q` if it comes
to one. -/
def Meets (I : Disk → Prop) (F G : Place → Prop) (Q : α → Prop) (x : Work ε α) : Prop :=
  ∀ d, I d → I (x d).2 ∧ d.Evolves F G (x d).2 ∧ ∀ a, (x d).1 = .ok a → Q a

variable {I : Disk → Prop} {F G : Place → Prop} {P : α → Prop} {Q : β → Prop}

theorem meets_pure {a : α} (h : P a) : (pure a : Work ε α).Meets I F G P :=
  fun d hd => ⟨hd, .refl d, fun _ hb => Except.ok.inj hb ▸ h⟩

theorem meets_throw (e : ε) : (throw e : Work ε α).Meets I F G P :=
  fun d hd => ⟨hd, .refl d, nofun⟩

theorem meets_ask {f : Disk → Except ε α} (h : ∀ d a, I d → f d = .ok a → P a) :
    (ask f).Meets I F G P := by
  intro d hd
  rw [ask_apply]
  exact ⟨hd, .refl d, fun a ha => h d a hd ha⟩

theorem meets_get : (get : Work ε Disk).Meets I F G I :=
  fun d hd => ⟨hd, .refl d, fun _ ha => Except.ok.inj ha ▸ hd⟩

theorem meets_change {f : Disk → Except ε Disk}
    (h : ∀ d d', I d → f d = .ok d' → I d' ∧ d.Evolves F G d') :
    (change f).Meets I F G fun _ => True := by
  intro d hd
  rw [change_apply]
  cases hf : f d with
  | error e => exact ⟨hd, .refl d, fun _ _ => trivial⟩
  | ok d' => exact ⟨(h d d' hd hf).1, (h d d' hd hf).2, fun _ _ => trivial⟩

theorem Meets.bind {x : Work ε α} {f : α → Work ε β} (hx : x.Meets I F G P)
    (hf : ∀ a, P a → (f a).Meets I F G Q) : (x >>= f).Meets I F G Q := by
  intro d hd
  obtain ⟨hI, hevolves, hP⟩ := hx d hd
  rw [bind_apply]
  cases hxd : x d with
  | mk r d' =>
    rw [hxd] at hI hevolves hP
    cases r with
    | error e => exact ⟨hI, hevolves, nofun⟩
    | ok a =>
      obtain ⟨hI', hevolves', hQ⟩ := hf a (hP a rfl) d' hI
      exact ⟨hI', hevolves.trans hevolves', hQ⟩

theorem Meets.mapError {x : Work ε α} (h : x.Meets I F G P) (f : ε → ε') :
    (x.mapError f).Meets I F G P := by
  intro d hd
  obtain ⟨hI, hevolves, hP⟩ := h d hd
  exact ⟨hI, hevolves, fun a ha => hP a (StaticSite.eq_ok_of_mapError ha)⟩

theorem Meets.mono {F' G' : Place → Prop} {x : Work ε α} (h : x.Meets I F G P)
    (hF : ∀ place, F place → F' place) (hG : ∀ place, G place → G' place) : x.Meets I F' G' P :=
  fun d hd => ⟨(h d hd).1, (h d hd).2.1.mono hF hG, (h d hd).2.2⟩

theorem meets_forM {f : α → Work ε PUnit} {as : List α}
    (h : ∀ a ∈ as, (f a).Meets I F G fun _ => True) : (as.forM f).Meets I F G fun _ => True := by
  induction as with
  | nil => exact meets_pure trivial
  | cons a as ih =>
    rw [List.forall_mem_cons] at h
    exact h.1.bind fun _ _ => ih h.2

theorem makeFirst_meets {ps : List Path}
    (h : ∀ p ∈ ps, ∀ d d', I d → d.makeDir p = .ok d' → I d') :
    (makeFirst ps).Meets I F G fun _ => True := by
  induction ps with
  | nil => exact meets_throw _
  | cons p above ih =>
    rw [List.forall_mem_cons] at h
    have hmake : ∀ {d d'}, I d → d.makeDir p = .ok d' → I d' ∧ d.Evolves F G d' :=
      fun hd hok => ⟨h.1 _ _ hd hok, (Disk.makeDir_grows hok).evolves⟩
    intro d hd
    unfold makeFirst
    split
    · exact ⟨hd, .refl d, fun _ _ => trivial⟩
    · split
      · next d' hok => exact ⟨(hmake hd hok).1, (hmake hd hok).2, fun _ _ => trivial⟩
      · -- No place for it was found: the ones above come first.
        obtain ⟨hI, hevolves, -⟩ := ih h.2 d hd
        split
        · next e d' habove =>
          rw [habove] at hI hevolves
          exact ⟨hI, hevolves, nofun⟩
        · next d' habove =>
          rw [habove] at hI hevolves
          split
          · next d'' hok =>
            exact ⟨(hmake hI hok).1, hevolves.trans (hmake hI hok).2, fun _ _ => trivial⟩
          · exact ⟨hI, hevolves, fun _ _ => trivial⟩
      · exact ⟨hd, .refl d, fun _ _ => trivial⟩

theorem precedes_of_mem_ancestors {n : Nat} {p q : Path} (h : q ∈ ancestors n p) : q.Precedes p := by
  induction n generalizing p with
  | zero => cases h
  | succ n ih =>
    rw [ancestors] at h
    obtain rfl | h := List.mem_cons.mp h
    · exact .refl _
    · split at h
      · next parent hparent => exact (ih h).trans (Path.parent?_precedes hparent)
      · cases h

structure Keeps (I : Disk → Prop) (p : Path) : Prop where
  makeDir : ∀ q d d', q.Precedes p → I d → Disk.makeDir d q = .ok d' → I d'
  removeDir : ∀ d d', I d → d.removeDir p = .ok d' → I d'
  clear : ∀ d place, I d → d.find p = .ok place → I { d with files := d.files.put place .empty }
  write : ∀ content d d', I d → d.write p content = .ok d' → I d'

theorem keeps_cwd (cwd : Place) (p : Path) : Keeps (fun d => d.cwd = cwd) p where
  makeDir _ _ _ _ hd h := (Disk.makeDir_grows h).cwd_eq.trans hd
  removeDir d d' hd h := by
    obtain ⟨place, -, -, rfl⟩ := Disk.removeDir_eq_ok h
    exact hd
  clear _ _ hd _ := hd
  write content d d' hd h := by
    obtain ⟨place, -, -, rfl⟩ := Disk.write_eq_ok h
    exact hd

theorem keeps_wellFormed {p : Path} (hp : p.Spelled) : Keeps (fun d => d.files.WellFormed) p where
  makeDir _ _ _ hq hd h := Disk.makeDir_wellFormed (hq.spelled hp) hd h
  removeDir _ _ hd h := Disk.removeDir_wellFormed hd h
  clear _ _ hd h := hd.put FileTree.wellFormed_empty (Disk.names_of_find hd hp h)
  write _ _ _ hd h := Disk.write_wellFormed hp hd h

theorem Keeps.and {I J : Disk → Prop} {p : Path} (h : Keeps I p) (h' : Keeps J p) :
    Keeps (fun d => I d ∧ J d) p where
  makeDir q d d' hq hd hok := ⟨h.makeDir q d d' hq hd.1 hok, h'.makeDir q d d' hq hd.2 hok⟩
  removeDir d d' hd hok := ⟨h.removeDir d d' hd.1 hok, h'.removeDir d d' hd.2 hok⟩
  clear d place hd hok := ⟨h.clear d place hd.1 hok, h'.clear d place hd.2 hok⟩
  write content d d' hd hok := ⟨h.write content d d' hd.1 hok, h'.write content d d' hd.2 hok⟩

theorem makeDirs_meets {p : Path}
    (h : ∀ q d d', q.Precedes p → I d → d.makeDir q = .ok d' → I d') :
    (makeDirs p).Meets I F G fun _ => True :=
  makeFirst_meets fun q hq d d' hd hok => h q d d' (precedes_of_mem_ancestors hq) hd hok

section RemoveTree

variable {p : Path} {out : Place} (h : Keeps I p) (hout : ∀ d, I d → p.normalize? d.cwd = some out)
include h hout

theorem removeDir_meets : (change fun d => match d.removeDir p with
      | .error .notFound => .ok d
      | r => r).Meets I (·.Below out) (out <+: ·) fun _ => True := by
  refine meets_change fun d d' hd hok => ?_
  split at hok
  · cases hok
    exact ⟨hd, .refl d⟩
  · exact ⟨h.removeDir d d' hd hok, Disk.removeDir_evolves (hout d hd) hok⟩

theorem removeTree_meets : (removeTree p).Meets I (·.Below out) (out <+: ·) fun _ => True := by
  intro d hd
  rw [removeTree, bind_apply, ask_apply]
  cases hfind : d.find p with
  | error e => exact ⟨hd, .refl d, fun _ _ => trivial⟩
  | ok place =>
    obtain rfl : place = out :=
      Option.some.inj ((Disk.normalize?_of_find hfind).symm.trans (hout d hd))
    simp only [bind_apply, ask_apply]
    cases hentries : d.entries place with
    | error e => exact ⟨hd, .refl d, fun _ _ => trivial⟩
    | ok entries =>
      simp only [modify_apply]
      have hdir : d.HasDir place := ⟨entries, Disk.entries_eq_ok_iff.mp hentries⟩
      obtain ⟨hI, hevolves, -⟩ := removeDir_meets h hout _ (h.clear d place hd hfind)
      exact ⟨hI, (Disk.clear_evolves hdir).trans hevolves, fun _ _ => trivial⟩

end RemoveTree

def makeParent (p : Path) : Work DiskError Unit :=
  match p.parent? with
  | some q => makeDirs q
  | none => pure ()

theorem writeFile_eq (p : Path) (content : ByteArray) :
    writeFile p content = (makeParent p >>= fun _ => change fun d => d.write p content) := by
  unfold writeFile makeParent
  cases p.parent? <;> rfl

theorem makeParent_meets {p : Path}
    (h : ∀ q d d', q.Precedes p → I d → d.makeDir q = .ok d' → I d') :
    (makeParent p).Meets I F G fun _ => True := by
  unfold makeParent
  split
  · next q hparent =>
    exact makeDirs_meets fun r d d' hr => h r d d' (hr.trans (Path.parent?_precedes hparent))
  · exact meets_pure trivial

theorem writeFile_meets {p : Path} {content : ByteArray} (h : Keeps I p)
    (hF : ∀ d place, I d → d.find p = .ok place → ¬d.HasDir place → F place) :
    (writeFile p content).Meets I F (fun _ => False) fun _ => True := by
  rw [writeFile_eq]
  refine (makeParent_meets h.makeDir).bind fun _ _ => meets_change fun d d' hd hok => ?_
  refine ⟨h.write content d d' hd hok, ?_⟩
  obtain ⟨place, hfind, hdir, -, hevolves⟩ := Disk.write_evolves hok
  exact hevolves.mono (fun q hq => hq ▸ hF d place hd hfind hdir) fun _ => id

theorem writeFile_keeps {p : Path} {content : ByteArray} {d : Disk} (hd : I d)
    (hmake : ∀ q d d', q.Precedes p → I d → d.makeDir q = .ok d' → I d')
    (hwrite : ∀ d d', I d → d.write p content = .ok d' → I d') : I (writeFile p content d).2 := by
  have hmeets : (writeFile p content).Meets I (fun _ => True) (fun _ => True) fun _ => True := by
    rw [writeFile_eq]
    refine (makeParent_meets hmake).bind fun _ _ => meets_change fun d d' hd hok => ?_
    obtain ⟨_, -, -, -, hevolves⟩ := Disk.write_evolves hok
    exact ⟨hwrite d d' hd hok, hevolves.mono (fun _ _ => trivial) fun _ _ => trivial⟩
  exact (hmeets d hd).1

theorem writeFile_eq_ok {p : Path} {content : ByteArray} {d d' : Disk}
    (h : writeFile p content d = (.ok (), d')) :
    ∃ place, d'.find p = .ok place ∧ ¬d'.HasDir place ∧ d'.file? place = some content ∧
      d.Evolves (· = place) (fun _ => False) d' := by
  rw [writeFile_eq] at h
  obtain ⟨_, d₁, hparent, hwrite⟩ := exists_of_bind_eq_ok h
  obtain ⟨-, hgrows, -⟩ := makeParent_meets (p := p) (I := fun _ => True) (F := fun _ => False)
    (G := fun _ => False) (fun _ _ _ _ _ _ => trivial) d trivial
  rw [hparent] at hgrows
  obtain ⟨place, hfind, -, hfile, hevolves⟩ := Disk.write_evolves (change_eq_ok hwrite)
  refine ⟨place, hevolves.find_eq hfind, fun hdir => ?_, hfile,
    (Disk.Grows.evolves hgrows).trans hevolves⟩
  rw [Disk.file?, hdir.file?_eq_none] at hfile
  cases hfile

end StaticSite.Work
