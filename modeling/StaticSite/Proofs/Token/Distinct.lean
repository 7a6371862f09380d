import Mathlib.Data.List.Perm.Basic
import StaticSite.Proofs.Outcome
import StaticSite.Token.Css
import StaticSite.Token.Flatten

namespace StaticSite

/-- The category of the second begins with that of the first, and what follows there begins the name
of the first: joined by hyphens, both give the same. -/
def Token.Straddles (t u : Token) : Prop :=
  ∃ r, u.category = t.category ++ "-" ++ r ∧ t.name = r ++ "-" ++ u.name

theorem Token.straddles_iff {t u : Token} :
    t.Straddles u ↔ ∃ r, u.category.toList = t.category.toList ++ '-' :: r ∧
      t.name.toList = r ++ '-' :: u.name.toList := by
  constructor
  · rintro ⟨r, hcategory, hname⟩
    exact ⟨r.toList, by simp [hcategory], by simp [hname]⟩
  · rintro ⟨r, hcategory, hname⟩
    refine ⟨String.ofList r, String.toList_inj.mp ?_, String.toList_inj.mp ?_⟩
    · simp [hcategory]
    · simp [hname]

theorem Token.Straddles.category_ne {t u : Token} (h : t.Straddles u) : t.category ≠ u.category := by
  obtain ⟨r, hcategory, -⟩ := straddles_iff.mp h
  intro heq
  simpa [heq] using congrArg List.length hcategory

namespace TokenDraft

def tokens (d : TokenDraft) : List Token := d.groups.flatMap TokenGroup.tokens

def flats (ts : List Token) : List String := ts.map fun t => flatKey t.category t.name

theorem addTokens_perm (name : String) (ts : List Token) (gs : List TokenGroup) :
    ((addTokens name ts gs).flatMap TokenGroup.tokens).Perm
      (gs.flatMap TokenGroup.tokens ++ ts) := by
  induction gs with
  | nil => simp [addTokens]
  | cons g gs ih =>
    rw [addTokens]
    split
    · simpa using List.perm_append_comm.append_left g.tokens
    · simpa using ih.append_left g.tokens

theorem lookup_eq_none_iff {seen : List (String × String)} {flat : String} :
    seen.lookup flat = none ↔ flat ∉ seen.map Prod.fst := by
  rw [List.lookup_eq_none_iff]
  constructor
  · intro h hmem
    obtain ⟨entry, hentry, rfl⟩ := List.mem_map.mp hmem
    simpa using h entry hentry
  · intro h entry hentry
    simpa using fun heq : flat = entry.1 => h (heq ▸ List.mem_map_of_mem hentry)

theorem note_eq_ok {category : String} {seen seen' : List (String × String)}
    {leaves : List TokenLeaf} (h : note category seen leaves = .ok seen') :
    seen'.map Prod.fst =
        (leaves.map fun l => flatKey category l.name).reverse ++ seen.map Prod.fst ∧
      ((seen.map Prod.fst).Nodup → (seen'.map Prod.fst).Nodup) := by
  induction leaves generalizing seen with
  | nil =>
    cases h
    simp
  | cons leaf rest ih =>
    rw [note] at h
    split at h
    · cases h
    · next hfresh =>
      obtain ⟨hkeys, hnodup⟩ := ih h
      refine ⟨by simp [hkeys], fun hseen => hnodup ?_⟩
      exact List.nodup_cons.mpr ⟨lookup_eq_none_iff.mp hfresh, hseen⟩

structure Noted (d : TokenDraft) : Prop where
  perm : (flats d.tokens).Perm (d.seen.map Prod.fst)
  nodup : (d.seen.map Prod.fst).Nodup

theorem noted_empty : Noted {} := ⟨.nil, .nil⟩

theorem Noted.add {d d' : TokenDraft} {category : String} {group : Value} (hd : d.Noted)
    (h : d.add category group = .ok d') : d'.Noted := by
  unfold TokenDraft.add at h
  split at h
  · next members =>
    obtain ⟨leaves, -, h⟩ := exists_of_bind_eq_ok h
    obtain ⟨seen, hseen, h⟩ := exists_of_bind_eq_ok h
    cases h
    obtain ⟨hkeys, hnodup⟩ := note_eq_ok hseen
    refine ⟨?_, hnodup hd.nodup⟩
    have htokens := addTokens_perm (Text.kebab category)
      (leaves.map fun l => ⟨Text.kebab category, l.name, l.value⟩) d.groups
    have hflats := htokens.map fun t : Token => flatKey t.category t.name
    simp only [List.map_append, List.map_map] at hflats
    rw [hkeys]
    exact hflats.trans (List.perm_append_comm.trans ((List.reverse_perm _).symm.append hd.perm))
  · cases h

theorem nodup_flats {v : Value} {s : TokenSet} (h : TokenSet.ofValue v = .ok s) :
    (flats s.tokens).Nodup := by
  unfold TokenSet.ofValue at h
  split at h
  · obtain ⟨d, hd, h⟩ := exists_of_bind_eq_ok h
    cases h
    have hnoted : d.Noted := of_foldlM_eq_ok (fun _ _ _ _ => Noted.add) noted_empty hd
    exact hnoted.perm.nodup_iff.mpr hnoted.nodup
  · cases h

end TokenDraft

theorem Text.hyphenated_eq_iff {a b c d : List Char} :
    a ++ '-' :: b = c ++ '-' :: d ↔ (a = c ∧ b = d) ∨
      (∃ r, c = a ++ '-' :: r ∧ b = r ++ '-' :: d) ∨ ∃ r, a = c ++ '-' :: r ∧ d = r ++ '-' :: b := by
  rw [List.append_eq_append_iff]
  constructor
  · rintro (⟨r, rfl, h⟩ | ⟨r, rfl, h⟩)
    · cases r with
      | nil => exact .inl (by simpa using h)
      | cons x r =>
        obtain ⟨rfl, rfl⟩ := List.cons.inj h
        exact .inr (.inl ⟨r, rfl, rfl⟩)
    · cases r with
      | nil => exact .inl (by simpa [eq_comm] using h)
      | cons x r =>
        obtain ⟨rfl, rfl⟩ := List.cons.inj h
        exact .inr (.inr ⟨r, rfl, rfl⟩)
  · rintro (⟨rfl, rfl⟩ | ⟨r, rfl, rfl⟩ | ⟨r, rfl, rfl⟩)
    · exact .inl ⟨[], by simp⟩
    · exact .inl ⟨'-' :: r, by simp⟩
    · exact .inr ⟨'-' :: r, by simp⟩

namespace TokenStyle

theorem property_eq_iff (st : TokenStyle) {t u : Token} :
    st.property t = st.property u ↔
      (t.category = u.category ∧ t.name = u.name) ∨ t.Straddles u ∨ u.Straddles t := by
  have hchars : st.property t = st.property u ↔
      t.category.toList ++ '-' :: t.name.toList = u.category.toList ++ '-' :: u.name.toList := by
    rw [← String.toList_inj]
    simp [property, String.toList_append]
  simp only [hchars, Text.hyphenated_eq_iff, Token.straddles_iff, String.toList_inj]

/-- Two tokens of a set get the same property if and only if the category of one reaches into the
name of the other. In particular, tokens of one category get different ones. -/
theorem properties_clash_iff {v : Value} {s : TokenSet} (h : TokenSet.ofValue v = .ok s)
    (lead : Option String) :
    s.tokens.Pairwise fun t u =>
      ((ofLead lead).property t = (ofLead lead).property u ↔ t.Straddles u ∨ u.Straddles t) ∧
      (t.category = u.category → (ofLead lead).property t ≠ (ofLead lead).property u) := by
  have hnodup := List.pairwise_map.mp (TokenDraft.nodup_flats h)
  refine hnodup.imp fun {t u} hflat => ?_
  have hdiffer : ¬(t.category = u.category ∧ t.name = u.name) := by
    rintro ⟨hcategory, hname⟩
    exact hflat (by rw [hcategory, hname])
  simp only [ne_eq, property_eq_iff]
  refine ⟨or_iff_right hdiffer, ?_⟩
  rintro hcategory (hequal | hreach | hreach)
  · exact hdiffer hequal
  · exact hreach.category_ne hcategory
  · exact hreach.category_ne hcategory.symm

def straddling : Value :=
  .map [("a-b", .map [("c", .string "1")]), ("a", .map [("b-c", .string "2"), ("d", .string "3")])]

theorem ofValue_straddling : TokenSet.ofValue straddling =
    .ok ⟨[⟨"a-b", [⟨"a-b", "c", "1"⟩]⟩, ⟨"a", [⟨"a", "b-c", "2"⟩, ⟨"a", "d", "3"⟩]⟩]⟩ := rfl

theorem properties_clash_straddling :
    ∃ s, TokenSet.ofValue straddling = .ok s ∧ s.tokens.Pairwise fun t u =>
      ((ofLead none).property t = (ofLead none).property u ↔ t.Straddles u ∨ u.Straddles t) ∧
      (t.category = u.category → (ofLead none).property t ≠ (ofLead none).property u) :=
  ⟨_, ofValue_straddling, properties_clash_iff ofValue_straddling none⟩

/-- Two tokens of an accepted value may share a property: the second declaration overrides the
first. -/
theorem css_declares_twice :
    ∃ s t u, TokenSet.ofValue straddling = .ok s ∧ s.tokens[0]? = some t ∧ s.tokens[1]? = some u ∧
      t ≠ u ∧ (ofLead none).property t = (ofLead none).property u ∧
      (ofLead none).css s = .ok ":root \x7b\n  --a-b-c: 1;\n  --a-b-c: 2;\n  --a-d: 3;\n\x7d\n" :=
  ⟨_, _, _, ofValue_straddling, rfl, rfl, by decide, by decide, by decide⟩

end TokenStyle

end StaticSite
