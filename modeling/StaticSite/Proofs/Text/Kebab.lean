import StaticSite.Text.Kebab

namespace StaticSite.Text

theorem isLower_toLower {c : Char} (h : c.isUpper) : c.toLower.isLower = true := by
  have hupper : 0x41 ≤ c.toNat ∧ c.toNat ≤ 0x5A := of_decide_eq_true h
  have hlower : c.toLower = _ := dif_pos (of_decide_eq_true h)
  have hval : c.toLower.toNat = c.toNat + 0x20 := by
    rw [hlower]
    exact (UInt32.toNat_add _ _).trans (Nat.mod_eq_of_lt (by simp; omega))
  have hrange : 0x61 ≤ c.toLower.toNat ∧ c.toLower.toNat ≤ 0x7A := by omega
  exact Bool.and_eq_true_iff.mpr ⟨decide_eq_true hrange.1, decide_eq_true hrange.2⟩

structure Kept (c : Char) : Prop where
  ne_underscore : c ≠ '_'
  ne_space : c ≠ ' '
  not_upper : c.isUpper = false

theorem kept_hyphen : Kept '-' := ⟨by decide, by decide, by decide⟩

theorem kept_of_isLower {c : Char} (h : c.isLower = true) : Kept c := by
  refine ⟨?_, ?_, ?_⟩
  · rintro rfl
    cases h
  · rintro rfl
    cases h
  · have hlower : 0x61 ≤ c.toNat := of_decide_eq_true (Bool.and_eq_true_iff.mp h).1
    refine decide_eq_false fun hupper => ?_
    have hbound : c.toNat ≤ 0x5A := hupper.2
    omega

theorem kept_of_mem_kebabChars {afterSmall : Bool} {cs : List Char} :
    ∀ c ∈ kebabChars afterSmall cs, Kept c := by
  induction cs generalizing afterSmall with
  | nil => exact List.forall_mem_nil _
  | cons c cs ih =>
    rw [kebabChars]
    split
    · exact List.forall_mem_cons.mpr ⟨kept_hyphen, ih⟩
    · next hgap =>
      obtain ⟨hlow, hspace⟩ : c ≠ '_' ∧ c ≠ ' ' := by simpa using hgap
      split
      · next hupper =>
        have hsmall : ∀ d ∈ c.toLower :: kebabChars false cs, Kept d :=
          List.forall_mem_cons.mpr ⟨kept_of_isLower (isLower_toLower hupper), ih⟩
        split
        · exact List.forall_mem_cons.mpr ⟨kept_hyphen, hsmall⟩
        · exact hsmall
      · next hupper =>
        exact List.forall_mem_cons.mpr ⟨⟨hlow, hspace, by simpa using hupper⟩, ih⟩

theorem kebabChars_eq {cs : List Char} (h : ∀ c ∈ cs, Kept c) (afterSmall : Bool) :
    kebabChars afterSmall cs = cs := by
  induction cs generalizing afterSmall with
  | nil => rfl
  | cons c cs ih =>
    obtain ⟨hc, hcs⟩ := List.forall_mem_cons.mp h
    simp [kebabChars, hc.ne_underscore, hc.ne_space, hc.not_upper, ih hcs]

/-- A name in kebab case. -/
def InKebab (s : String) : Prop := ∀ c ∈ s.toList, Kept c

theorem inKebab_kebab (s : String) : InKebab (kebab s) := by
  rw [InKebab, kebab, String.toList_ofList]
  exact kept_of_mem_kebabChars

theorem InKebab.kebab_eq {s : String} (h : InKebab s) : kebab s = s := by
  rw [kebab, kebabChars_eq h, String.ofList_toList]

theorem InKebab.append {s t : String} (hs : InKebab s) (ht : InKebab t) : InKebab (s ++ t) := by
  rw [InKebab, String.toList_append]
  exact List.forall_mem_append.mpr ⟨hs, ht⟩

theorem inKebab_hyphen : InKebab "-" := by simpa [InKebab] using kept_hyphen

theorem inKebab_intercalate {names : List String} (h : ∀ s ∈ names, InKebab s) :
    InKebab ("-".intercalate names) := by
  induction names with
  | nil => exact List.forall_mem_nil _
  | cons s names ih =>
    obtain ⟨hs, hnames⟩ := List.forall_mem_cons.mp h
    cases names with
    | nil => simpa using hs
    | cons t names =>
      rw [String.intercalate_cons_cons]
      exact (hs.append inKebab_hyphen).append (ih hnames)

end StaticSite.Text
