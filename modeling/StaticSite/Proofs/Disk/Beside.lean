import StaticSite.Proofs.Disk.Way

namespace StaticSite.Disk

open FileTree (Kind)

structure Beside (out : Place) (d d' : Disk) : Prop where
  cwd_eq : d'.cwd = d.cwd
  kind?_eq : ∀ q, ¬out <+: q → d'.kind? q = d.kind? q ∨
    q <+: out ∧ d.kind? q = none ∧ d'.kind? q = some .dir

def readAt (d : Disk) (place : Place) : Except DiskError ByteArray :=
  match d.kind? place with
  | none => .error .notFound
  | some (.file content) => .ok content
  | some .dir => .error .isDirectory

theorem read_eq_walk (d : Disk) (p : Path) :
    d.read p = d.start p >>= fun start => p.segments.foldlM d.enter start >>= d.readAt := by
  rw [read_eq, find]
  cases d.start p <;> rfl

variable {d d' : Disk} {out place : Place} {segments : List String}

namespace Beside

theorem walk_of_none (h : Beside out d d') (hup : ".." ∉ segments)
    (hplace : ¬out <+: place ++ Place.named segments) (hnone : d.kind? place = none) :
    ∃ e, segments.foldlM d'.enter place >>= d'.readAt = .error e ∧
      (e = .notFound ∨ e = .isDirectory ∨ e = .nameTooLong) := by
  induction segments generalizing place with
  | nil =>
    rw [Place.named_nil, List.append_nil] at hplace
    obtain heq | ⟨-, -, hdir⟩ := h.kind?_eq place hplace
    · exact ⟨.notFound, by simp [pure, Except.pure, bind, Except.bind, readAt, heq, hnone], .inl rfl⟩
    · exact ⟨.isDirectory, by simp [pure, Except.pure, bind, Except.bind, readAt, hdir],
        .inr (.inl rfl)⟩
  | cons s rest ih =>
    rw [List.mem_cons, not_or] at hup
    have hhere : ¬out <+: place := fun hle => hplace (hle.trans (List.prefix_append _ _))
    have hrest := @ih (place.follow s) hup.2
    rw [Place.follow_eq (Ne.symm hup.1), List.append_assoc, ← Place.named_append] at hrest
    rw [List.foldlM_cons, enter_eq, stepError]
    obtain heq | ⟨-, -, hdir⟩ := h.kind?_eq place hhere
    · exact ⟨.notFound, by simp [heq, hnone, bind, Except.bind], .inl rfl⟩
    · by_cases hs : s.utf8ByteSize > nameLimit
      · exact ⟨.nameTooLong, by simp [hdir, hs, bind, Except.bind], .inr (.inr rfl)⟩
      · simp only [hdir, if_neg hs]
        rw [Place.follow_eq (Ne.symm hup.1)]
        exact hrest hplace (kind?_append_of_none hnone _)

structure Uncovers (out place : Place) (d d' : Disk) (x x' : Except DiskError ByteArray) : Prop where
  before : x = .error .notFound
  after : x' = .error .isDirectory ∨ x' = .error .nameTooLong
  made : ∃ q, q <+: place ∧ q <+: out ∧ d.kind? q = none ∧ d'.kind? q = some .dir

theorem walk (h : Beside out d d') (hup : ".." ∉ segments)
    (hplace : ¬out <+: place ++ Place.named segments) :
    (segments.foldlM d'.enter place >>= d'.readAt) = (segments.foldlM d.enter place >>= d.readAt) ∨
      Uncovers out (place ++ Place.named segments) d d' (segments.foldlM d.enter place >>= d.readAt)
        (segments.foldlM d'.enter place >>= d'.readAt) := by
  induction segments generalizing place with
  | nil =>
    rw [Place.named_nil, List.append_nil] at hplace ⊢
    obtain heq | ⟨hq, hnone, hdir⟩ := h.kind?_eq place hplace
    · exact .inl (by simp [pure, Except.pure, bind, Except.bind, readAt, heq])
    · refine .inr ⟨?_, .inl ?_, place, List.prefix_refl _, hq, hnone, hdir⟩ <;>
        simp [pure, Except.pure, bind, Except.bind, readAt, hnone, hdir]
  | cons s rest ih =>
    have hhere : ¬out <+: place := fun hle => hplace (hle.trans (List.prefix_append _ _))
    obtain heq | ⟨hq, hnone, hdir⟩ := h.kind?_eq place hhere
    · rw [List.mem_cons, not_or] at hup
      have hrest := @ih (place.follow s) hup.2
      rw [Place.follow_eq (Ne.symm hup.1), List.append_assoc, ← Place.named_append] at hrest
      rw [List.foldlM_cons, List.foldlM_cons, enter_congr heq, enter_eq]
      cases d.stepError place s with
      | some e => exact .inl rfl
      | none =>
        simp only
        rw [Place.follow_eq (Ne.symm hup.1)]
        exact hrest hplace
    · have hbefore : ((s :: rest).foldlM d.enter place >>= d.readAt) = .error .notFound := by
        rw [List.foldlM_cons, enter_eq, stepError, hnone]
        rfl
      obtain ⟨e, hafter, he⟩ := h.walk_of_none hup hplace hnone
      obtain rfl | he := he
      · exact .inl (hafter.trans hbefore.symm)
      · refine .inr ⟨hbefore, ?_, place, List.prefix_append _ _, hq, hnone, hdir⟩
        rw [hafter]
        exact he.imp (congrArg Except.error) (congrArg Except.error)

theorem read (h : Beside out d d') {p : Path} (hp : p.Straight)
    (hplace : p.normalize? d.cwd = some place) (hout : ¬out <+: place) :
    d'.read p = d.read p ∨ Uncovers out place d d' (d.read p) (d'.read p) := by
  rw [read_eq_walk, read_eq_walk, start_congr h.cwd_eq]
  cases hstart : d.start p with
  | error e => exact .inl rfl
  | ok start =>
    have heq : place = start ++ Place.named p.segments := by
      rw [hp.eq_of_normalize? hplace, (origin_of_start hstart).2]
    rw [heq] at hout ⊢
    exact h.walk hp hout

theorem filesBelow_eq (h : Beside out d d') (hd : d.files.WellFormed) (hd' : d'.files.WellFormed)
    {p : Path} (hp : p.Straight) (hplace : p.normalize? d.cwd = some place) (hout : ¬out <+: place)
    (hout' : ¬place <+: out) : d'.filesBelow p = d.filesBelow p := by
  have hbelow : ∀ names, d'.kind? (place ++ names) = d.kind? (place ++ names) := by
    intro names
    have hunder := List.prefix_append place names
    refine (h.kind?_eq _ fun hle => ?_).resolve_right fun hnew => hout' (hunder.trans hnew.1)
    exact (List.prefix_or_prefix_of_prefix hle hunder).elim hout hout'
  have hdirs : d'.HasDir place ↔ d.HasDir place := hasDir_congr (by simpa using hbelow [])
  have hcwd : d.cwd = d'.cwd := h.cwd_eq.symm
  refine filesBelow_congr hd hd' (fun found hfind hdir => ?_) (fun found hfind hdir => ?_) ?_
  · obtain rfl := Option.some.inj ((normalize?_of_find hfind).symm.trans (hcwd ▸ hplace))
    have hdir' := hdirs.mp hdir
    exact find_of_hasDir_prefix hp hcwd (fun q hq _ => hdir'.of_prefix hq) hfind
  · obtain rfl := Option.some.inj ((normalize?_of_find hfind).symm.trans hplace)
    have hdir' := hdirs.mpr hdir
    exact find_of_hasDir_prefix hp h.cwd_eq (fun q hq _ => hdir'.of_prefix hq) hfind
  · intro found hfound
    obtain rfl := Option.some.inj (hfound.symm.trans hplace)
    exact hbelow

end Beside

end StaticSite.Disk
