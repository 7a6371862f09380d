import StaticSite.Config.Basic
import StaticSite.Proofs.Outcome

namespace StaticSite.Config

theorem place_eq_ok_iff {cwd place : Place} {p : Path} :
    Config.place cwd p = .ok place ↔ p.normalize? cwd = some place := by
  unfold Config.place
  cases p.normalize? cwd <;> simp

theorem overlap_iff {p q : Place} : overlap p q = true ↔ p <+: q ∨ q <+: p := by
  simp [overlap]

/-- The output directory lies at `out`, beside the root and all that a build reads. -/
structure OutputAt (c : Config) (cwd out : Place) : Prop where
  output : c.output.normalize? cwd = some out
  root : ∃ place, c.root.normalize? cwd = some place ∧ ¬out <+: place
  tokens : ∃ place, c.tokens.normalize? cwd = some place ∧ ¬out <+: place
  source : ∀ source ∈ c.sources,
    ∃ place, source.normalize? cwd = some place ∧ ¬out <+: place ∧ ¬place <+: out

theorem checkSource_eq_ok_iff {cwd out : Place} {source : Path} :
    checkSource cwd out source = .ok () ↔
      ∃ place, source.normalize? cwd = some place ∧ ¬out <+: place ∧ ¬place <+: out := by
  simp only [checkSource, bind_eq_ok_iff, place_eq_ok_iff]
  refine exists_congr fun place => and_congr_right fun _ => ?_
  rw [← not_or, ← overlap_iff]
  cases overlap out place <;> simp

theorem checkOutput_eq_ok_iff {c : Config} {cwd : Place} :
    c.checkOutput cwd = .ok () ↔ ∃ out, c.OutputAt cwd out := by
  constructor
  · intro h
    obtain ⟨root, hroot, h⟩ := exists_of_bind_eq_ok h
    obtain ⟨out, hout, h⟩ := exists_of_bind_eq_ok h
    split at h
    · cases h
    · next habove =>
      obtain ⟨tokens, htokens, h⟩ := exists_of_bind_eq_ok h
      split at h
      · cases h
      · next hholds =>
        rw [place_eq_ok_iff] at hroot hout htokens
        rw [List.isPrefixOf_iff_prefix] at habove hholds
        exact ⟨out, hout, ⟨root, hroot, habove⟩, ⟨tokens, htokens, hholds⟩, fun source hsource =>
          checkSource_eq_ok_iff.mp (forM_eq_ok_iff.mp h source hsource)⟩
  · rintro ⟨out, hout, ⟨root, hroot, habove⟩, ⟨tokens, htokens, hholds⟩, hsource⟩
    rw [← place_eq_ok_iff] at hroot hout htokens
    rw [← List.isPrefixOf_iff_prefix] at habove hholds
    have hsources : c.sources.forM (checkSource cwd out) = .ok () :=
      forM_eq_ok_iff.mpr fun source hs => checkSource_eq_ok_iff.mpr (hsource source hs)
    simp [checkOutput, hroot, hout, htokens, habove, hholds, hsources, bind, Except.bind]

theorem outputAt_of_validate {c : Config} {cwd : Place} (h : c.validate cwd = .ok ()) :
    ∃ out, c.OutputAt cwd out := by
  unfold validate at h
  split at h
  · cases h
  · obtain ⟨u, -, h⟩ := exists_of_bind_eq_ok h
    exact checkOutput_eq_ok_iff.mp h

theorem checkStylesheet_of_validate {c : Config} {cwd : Place} (h : c.validate cwd = .ok ()) :
    (Path.ofText c.stylesheet).isAbsolute = false ∧ ".css".toList <:+ c.stylesheet.toList := by
  unfold validate at h
  split at h
  · cases h
  · obtain ⟨u, h, -⟩ := exists_of_bind_eq_ok h
    unfold checkStylesheet at h
    split at h
    · cases h
    · next hsheet =>
      simp only [Bool.or_eq_true, Bool.not_eq_true', not_or, Bool.not_eq_true,
        Bool.not_eq_false] at hsheet
      refine ⟨hsheet.1, ?_⟩
      have hends := hsheet.2
      rw [← String.endsWith_toSlice, String.Slice.endsWith_string_iff] at hends
      simpa using hends

theorem OutputAt.not_prefix {c : Config} {cwd out : Place} (h : c.OutputAt cwd out) {source : Path}
    (hsource : source ∈ c.sources) {place : Place} (hplace : source.normalize? cwd = some place)
    {q : Place} (hq : place <+: q) : ¬out <+: q := by
  intro hout
  obtain ⟨place', hplace', hapart⟩ := h.source source hsource
  obtain rfl := Option.some.inj (hplace.symm.trans hplace')
  obtain habove | hbelow := List.prefix_or_prefix_of_prefix hout hq
  · exact hapart.1 habove
  · exact hapart.2 hbelow

end StaticSite.Config
