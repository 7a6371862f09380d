import StaticSite.Proofs.Disk.Kind
import StaticSite.Proofs.Disk.Sound

/-! Work on two disks at once: what it finds, and how it ends, is the same on disks that are alike. -/

namespace StaticSite

namespace Disk

structure Alike (d d' : Disk) : Prop where
  cwd_eq : d'.cwd = d.cwd
  kind?_eq : ∀ place, d'.kind? place = d.kind? place

namespace Alike

variable {d d' d'' : Disk}

theorem hasDir_iff (h : d.Alike d') {place : Place} : d'.HasDir place ↔ d.HasDir place :=
  hasDir_congr (h.kind?_eq place)

theorem file?_eq (h : d.Alike d') (place : Place) : d'.file? place = d.file? place :=
  Option.ext fun content => by rw [← kind?_eq_file_iff, ← kind?_eq_file_iff, h.kind?_eq]

theorem enter_eq (h : d.Alike d') : d'.enter = d.enter := by
  funext place s
  exact enter_congr (h.kind?_eq place) s

theorem find_eq (h : d.Alike d') (p : Path) : d'.find p = d.find p := by
  rw [find, find, start_congr h.cwd_eq, h.enter_eq]

theorem parent_eq (h : d.Alike d') (p : Path) : d'.parent p = d.parent p := by
  rw [parent, parent, start_congr h.cwd_eq, h.enter_eq]

theorem isDir_eq (h : d.Alike d') (p : Path) : d'.isDir p = d.isDir p :=
  Bool.eq_iff_iff.mpr (by simp only [isDir_eq_true_iff, h.find_eq, h.hasDir_iff])

theorem isFile_eq (h : d.Alike d') (p : Path) : d'.isFile p = d.isFile p :=
  Bool.eq_iff_iff.mpr (by simp only [isFile_eq_true_iff, h.find_eq, h.file?_eq])

theorem read_eq (h : d.Alike d') (p : Path) : d'.read p = d.read p := by
  simp only [Disk.read_eq, h.find_eq, h.kind?_eq]

theorem filesBelow_eq (h : d.Alike d') (hd : d.files.WellFormed) (hd' : d'.files.WellFormed)
    (p : Path) : d'.filesBelow p = d.filesBelow p :=
  filesBelow_congr hd hd' (fun _ hfind _ => h.find_eq p ▸ hfind)
    (fun _ hfind _ => (h.find_eq p).trans hfind) fun _ _ _ => h.kind?_eq _

end Alike

structure ReadsAlike (d d' : Disk) : Prop where
  read_eq : ∀ p, d'.read p = d.read p
  isFile_eq : ∀ p, d'.isFile p = d.isFile p
  filesBelow_eq : ∀ p, d'.filesBelow p = d.filesBelow p

theorem ReadsAlike.refl (d : Disk) : d.ReadsAlike d := ⟨fun _ => rfl, fun _ => rfl, fun _ => rfl⟩

structure Twin (cwd : Place) (d d' : Disk) : Prop where
  sound : d.SoundAt cwd
  sound' : d'.SoundAt cwd
  alike : d.Alike d'

theorem Twin.readsAlike {cwd : Place} {d d' : Disk} (h : d.Twin cwd d') : d.ReadsAlike d' :=
  ⟨h.alike.read_eq, h.alike.isFile_eq, h.alike.filesBelow_eq h.sound.2 h.sound'.2⟩

def Outcome (R : Disk → Disk → Prop) : Except ε Disk → Except ε Disk → Prop
  | .ok d, .ok d' => R d d'
  | .error e, .error e' => e' = e
  | _, _ => False

theorem outcome_of_map_eq {R : Disk → Disk → Prop} {x y : Except ε Disk}
    (h : y.map (fun _ => ()) = x.map fun _ => ())
    (hR : ∀ e e', x = .ok e → y = .ok e' → R e e') : Outcome R x y := by
  cases x with
  | error e =>
    cases y with
    | error e' => exact Except.error.inj h
    | ok d' => cases h
  | ok d =>
    cases y with
    | error e' => cases h
    | ok d' => exact hR d d' rfl rfl

namespace Twin

variable {cwd : Place} {d d' : Disk} {p : Path}

theorem makeDir (h : d.Twin cwd d') (hp : p.Spelled) :
    Outcome (Twin cwd) (d.makeDir p) (d'.makeDir p) := by
  refine outcome_of_map_eq ?_ fun e e' he he' => ?_
  · unfold Disk.makeDir
    rw [h.alike.parent_eq]
    cases d.parent p with
    | error e => rfl
    | ok found =>
      obtain ⟨place, last⟩ := found
      simp only [bind, Except.bind]
      cases Component.ofSegment? last with
      | none => rfl
      | some c =>
        cases c with
        | name s =>
          have hkind := congrArg Option.isSome (h.alike.kind?_eq (place ++ [s]))
          simp only [kind?, FileTree.kind?, Option.isSome_map] at hkind
          simp only [hkind]
          split <;> rfl
        | _ => rfl
  · have hkeeps := Work.keeps_soundAt cwd hp
    have hsound := hkeeps.makeDir p d e (.refl p) h.sound he
    have hsound' := hkeeps.makeDir p d' e' (.refl p) h.sound' he'
    obtain ⟨place, hplace, -, -, hkind⟩ := kind?_of_makeDir he
    obtain ⟨place', hplace', -, -, hkind'⟩ := kind?_of_makeDir he'
    rw [h.alike.cwd_eq, hplace] at hplace'
    obtain rfl := Option.some.inj hplace'
    refine ⟨hsound, hsound', hsound'.1.trans hsound.1.symm, fun q => ?_⟩
    rw [hkind, hkind', h.alike.kind?_eq]

theorem write (h : d.Twin cwd d') (hp : p.Spelled) (content : ByteArray) :
    Outcome (Twin cwd) (d.write p content) (d'.write p content) := by
  refine outcome_of_map_eq ?_ fun e e' he he' => ?_
  · unfold Disk.write
    rw [h.alike.find_eq]
    cases d.find p with
    | error e => rfl
    | ok place =>
      have hkind := h.alike.kind?_eq place
      simp only [bind, Except.bind]
      cases hget : d.files.get? place with
      | none =>
        cases hget' : d'.files.get? place with
        | none => rfl
        | some t => simp [kind?, FileTree.kind?, hget, hget'] at hkind
      | some t =>
        cases hget' : d'.files.get? place with
        | none => simp [kind?, FileTree.kind?, hget, hget'] at hkind
        | some t' =>
          simp only [kind?, FileTree.kind?, hget, hget', Option.map_some, Option.some.injEq] at hkind
          cases t <;> cases t' <;> first | rfl | simp [FileTree.kind] at hkind
  · have hkeeps := Work.keeps_soundAt cwd hp
    have hsound := hkeeps.write content d e h.sound he
    have hsound' := hkeeps.write content d' e' h.sound' he'
    obtain ⟨place, hfind, -, hkind⟩ := kind?_of_write he
    obtain ⟨place', hfind', -, hkind'⟩ := kind?_of_write he'
    rw [h.alike.find_eq, hfind] at hfind'
    obtain rfl := Except.ok.inj hfind'
    refine ⟨hsound, hsound', hsound'.1.trans hsound.1.symm, fun q => ?_⟩
    rw [hkind, hkind', h.alike.kind?_eq]

end Twin

end Disk

namespace Work

open Disk (Outcome Twin)

variable {R : Disk → Disk → Prop}

/-- From related disks a work ends in the same way, and on related disks. -/
def Same (R : Disk → Disk → Prop) (x : Work ε α) : Prop :=
  ∀ d d', R d d' → (x d').1 = (x d).1 ∧ R (x d).2 (x d').2

theorem same_pure (a : α) : (pure a : Work ε α).Same R := fun _ _ h => ⟨rfl, h⟩

theorem same_throw (e : ε) : (throw e : Work ε α).Same R := fun _ _ h => ⟨rfl, h⟩

theorem same_change {f : Disk → Except ε Disk} (hf : ∀ d d', R d d' → Outcome R (f d) (f d')) :
    (change f).Same R := by
  intro d d' h
  have houtcome := hf d d' h
  rw [change_apply, change_apply]
  cases hd : f d <;> cases hd' : f d' <;> rw [hd, hd'] at houtcome
  · exact ⟨congrArg Except.error houtcome, h⟩
  · exact houtcome.elim
  · exact houtcome.elim
  · exact ⟨rfl, houtcome⟩

theorem Same.bind {x : Work ε α} {f : α → Work ε β} (hx : x.Same R) (hf : ∀ a, (f a).Same R) :
    (x >>= f).Same R := by
  intro d d' h
  obtain ⟨hresult, hdisk⟩ := hx d d' h
  rw [bind_apply, bind_apply]
  cases hd : x d with
  | mk r e =>
    cases hd' : x d' with
    | mk r' e' =>
      rw [hd, hd'] at hresult hdisk
      obtain rfl : r' = r := hresult
      cases r' with
      | error _ => exact ⟨rfl, hdisk⟩
      | ok a => exact hf a e e' hdisk

theorem same_ask_bind {f : Disk → Except ε α} {g : α → Work ε β}
    (hf : ∀ d d', R d d' → f d' = f d)
    (hg : ∀ d d' a, R d d' → f d = .ok a → (g a).Same R) : (ask f >>= g).Same R := by
  intro d d' h
  rw [bind_apply, bind_apply, ask_apply, ask_apply, hf d d' h]
  cases hfd : f d with
  | error e => exact ⟨rfl, h⟩
  | ok a => exact hg d d' a h hfd d d' h

theorem same_of_keeps {I : Disk → Prop} {x : Work ε α} (h : ∀ d, I d → I (x d).2) :
    x.Same fun d d' => d' = d ∧ I d := by
  rintro d _ ⟨rfl, hd⟩
  exact ⟨rfl, rfl, h _ hd⟩

theorem same_get_bind {f : Disk → Work ε α} (hread : ∀ d d', R d d' → f d' = f d)
    (hf : ∀ d d', R d d' → (f d).Same R) : (get >>= f).Same R := by
  intro d d' h
  obtain ⟨hresult, hdisk⟩ := hf d d' h d d' h
  change (f d' d').1 = (f d d).1 ∧ R (f d d).2 (f d' d').2
  rw [hread d d' h]
  exact ⟨hresult, hdisk⟩

theorem Same.mapError {x : Work ε α} (h : x.Same R) (f : ε → ε') : (x.mapError f).Same R := by
  intro d d' hR
  obtain ⟨hresult, hdisk⟩ := h d d' hR
  exact ⟨congrArg (Except.mapError f) hresult, hdisk⟩

theorem same_forM {f : α → Work ε PUnit} {as : List α} (h : ∀ a ∈ as, (f a).Same R) :
    (as.forM f).Same R := by
  induction as with
  | nil => exact same_pure _
  | cons a as ih =>
    rw [List.forall_mem_cons] at h
    exact h.1.bind fun _ => ih h.2

variable {cwd : Place}

theorem makeFirst_same {ps : List Path} (hps : ∀ p ∈ ps, p.Spelled) :
    (makeFirst ps).Same (Twin cwd) := by
  induction ps with
  | nil => exact same_throw _
  | cons p above ih =>
    rw [List.forall_mem_cons] at hps
    -- A directory that cannot be made is there on both disks or on none.
    have hend : ∀ {d d' : Disk} (e : DiskError), d.Twin cwd d' →
        ((if d'.isDir p then .ok () else .error e) : Except DiskError Unit) =
          (if d.isDir p then .ok () else .error e) ∧ d.Twin cwd d' :=
      fun e h => ⟨by rw [h.alike.isDir_eq], h⟩
    intro d d' h
    unfold makeFirst
    split
    · exact ⟨rfl, h⟩
    · have hmake := h.makeDir hps.1
      cases hd : d.makeDir p <;> cases hd' : d'.makeDir p <;> rw [hd, hd'] at hmake
      · obtain rfl := hmake
        rename_i e
        cases e with
        | notFound =>
          obtain ⟨hresult, htwin⟩ := ih hps.2 d d' h
          simp only
          cases ha : makeFirst above d with
          | mk r e =>
            cases ha' : makeFirst above d' with
            | mk r' e' =>
              rw [ha, ha'] at hresult htwin
              obtain rfl : r' = r := hresult
              cases r' with
              | error _ => exact ⟨rfl, htwin⟩
              | ok u =>
                have hagain := htwin.makeDir hps.1
                simp only
                cases hm : e.makeDir p <;> cases hm' : e'.makeDir p <;> rw [hm, hm'] at hagain
                · obtain rfl := hagain
                  exact hend _ htwin
                · exact hagain.elim
                · exact hagain.elim
                · exact ⟨rfl, hagain⟩
        | _ => exact hend _ h
      · exact hmake.elim
      · exact hmake.elim
      · exact ⟨rfl, hmake⟩

theorem makeDirs_same {p : Path} (hp : p.Spelled) : (makeDirs p).Same (Twin cwd) :=
  makeFirst_same fun _ hq => (precedes_of_mem_ancestors hq).spelled hp

theorem writeFile_same {p : Path} (hp : p.Spelled) (content : ByteArray) :
    (writeFile p content).Same (Twin cwd) := by
  rw [writeFile_eq]
  refine Same.bind ?_ fun _ => same_change fun d d' h => h.write hp content
  unfold makeParent
  split
  · next q hparent => exact makeDirs_same ((Path.parent?_precedes hparent).spelled hp)
  · exact same_pure _

end Work

end StaticSite
