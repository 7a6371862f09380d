import StaticSite.Proofs.Token.Leaves
import StaticSite.Proofs.Value.Throughout

namespace StaticSite

namespace TokenGroup

def members (g : TokenGroup) : List (String × Value) :=
  g.tokens.map fun t => (t.name, .string t.value)

theorem unwrapMembers_members (g : TokenGroup) : Value.unwrapMembers g.members = g.members := by
  obtain ⟨name, tokens⟩ := g
  induction tokens with
  | nil => rfl
  | cons t ts ih => exact congrArg _ ih

theorem memberLeaves_members (g : TokenGroup) :
    Value.memberLeaves g.members = g.tokens.map fun t => ([t.name], .string t.value) := by
  obtain ⟨name, tokens⟩ := g
  induction tokens with
  | nil => rfl
  | cons t ts ih => exact congrArg _ ih

theorem ofCategory_members (g : TokenGroup) :
    TokenSource.ofCategory g.name (.map g.members) =
      g.tokens.map fun t => ⟨g.name, [t.name], .string t.value⟩ := by
  rw [TokenSource.ofCategory, unwrapMembers_members, memberLeaves_members, List.map_map]
  rfl

end TokenGroup

namespace TokenDraft

theorem eraseDups_of_nodup {names : List String} (h : names.Nodup) : names.eraseDups = names := by
  induction names using List.reverseRecOn with
  | nil => rfl
  | append_singleton names n ih =>
    obtain ⟨hnames, -, hn⟩ := List.nodup_append.mp h
    rw [eraseDups_concat, if_neg fun hmem => hn n hmem n (by simp) rfl, ih hnames]

theorem grouped_flatMap {gs : List TokenGroup} (hnames : (gs.map TokenGroup.name).Nodup)
    (hgs : ∀ g ∈ gs, ∀ t ∈ g.tokens, t.category = g.name) :
    grouped (gs.map TokenGroup.name) (gs.flatMap TokenGroup.tokens) = gs := by
  induction gs with
  | nil => rfl
  | cons g gs ih =>
    rw [List.map_cons, List.nodup_cons] at hnames
    obtain ⟨hg, hgs⟩ := List.forall_mem_cons.mp hgs
    have hother : ∀ t ∈ gs.flatMap TokenGroup.tokens, t.category ≠ g.name := by
      intro t ht heq
      obtain ⟨g', hg', ht⟩ := List.mem_flatMap.mp ht
      exact hnames.1 (List.mem_map.mpr ⟨g', hg', (hgs g' hg' t ht).symm.trans heq⟩)
    have hown : (g.tokens ++ gs.flatMap TokenGroup.tokens).filter (fun t => t.category = g.name) =
        g.tokens := by
      rw [List.filter_append, List.filter_eq_self.mpr (by simpa using hg),
        List.filter_eq_nil_iff.mpr (by simpa using hother), List.append_nil]
    have hrest : grouped (gs.map TokenGroup.name) (g.tokens ++ gs.flatMap TokenGroup.tokens) =
        grouped (gs.map TokenGroup.name) (gs.flatMap TokenGroup.tokens) := by
      refine List.map_congr_left fun n hn => ?_
      have hnone : g.tokens.filter (fun t => t.category = n) = [] :=
        List.filter_eq_nil_iff.mpr fun t ht heq =>
          hnames.1 (hg t ht ▸ (of_decide_eq_true heq).symm ▸ hn)
      rw [List.filter_append, hnone, List.nil_append]
    rw [List.map_cons, List.flatMap_cons, grouped_cons, hown, hrest, ih hnames.2 hgs]

end TokenDraft

namespace TokenSet

def value (s : TokenSet) : Value := .map (s.groups.map fun g => (g.name, .map g.members))

/-- No category comes twice, each token lies in the group of its category, names are in kebab case,
and tokens differ in the keys by which they are told apart. -/
structure Normal (s : TokenSet) : Prop where
  names_nodup : (s.groups.map TokenGroup.name).Nodup
  category_eq : ∀ g ∈ s.groups, ∀ t ∈ g.tokens, t.category = g.name
  inKebab_group : ∀ g ∈ s.groups, Text.InKebab g.name
  inKebab_token : ∀ t ∈ s.tokens, Text.InKebab t.name
  flats_nodup : (TokenDraft.flats s.tokens).Nodup

variable {s : TokenSet}

theorem normal_of_ofValue {v : Value} (h : ofValue v = .ok s) : s.Normal := by
  obtain ⟨d, hd, hgroups⟩ := exists_addAll_of_ofValue h
  have hgrouped := hgroups.trans (TokenDraft.groups_of_addAll hd)
  refine ⟨?_, ?_, ?_, ?_, TokenDraft.nodup_flats h⟩
  · rw [hgrouped, TokenDraft.grouped, List.map_map]
    exact (List.map_id _).symm ▸ TokenDraft.nodup_eraseDups _
  · intro g hg t ht
    rw [hgrouped] at hg
    obtain ⟨n, -, rfl⟩ := List.mem_map.mp hg
    exact of_decide_eq_true (List.mem_filter.mp ht).2
  · intro g hg
    rw [hgrouped] at hg
    obtain ⟨n, hn, rfl⟩ := List.mem_map.mp hg
    obtain ⟨c, -, rfl⟩ := List.mem_map.mp (List.mem_eraseDups.mp hn)
    exact Text.inKebab_kebab c.1
  · intro t ht
    obtain ⟨l, -, rfl⟩ := List.mem_map.mp ((tokens_perm h).subset ht)
    exact l.inKebab_name

theorem sources_value (s : TokenSet) :
    sources s.value =
      s.groups.flatMap fun g => g.tokens.map fun t => ⟨g.name, [t.name], .string t.value⟩ := by
  rw [sources, value, categories, TokenSource.ofCategories, List.flatMap_map]
  exact List.flatMap_congr fun g _ => g.ofCategory_members

namespace Normal

theorem map_token (h : s.Normal) : (sources s.value).map TokenSource.token = s.tokens := by
  rw [sources_value, List.map_flatMap, tokens]
  refine List.flatMap_congr fun g hg => ?_
  rw [List.map_map]
  refine (List.map_congr_left fun t ht => ?_).trans (List.map_id _)
  have htoken := h.inKebab_token t (List.mem_flatMap.mpr ⟨g, hg, ht⟩)
  have hgroup := h.inKebab_group g hg
  rw [← h.category_eq g hg t ht] at hgroup ⊢
  simp [TokenSource.token, TokenSource.name, htoken.kebab_eq, hgroup.kebab_eq, Value.tokenText]

theorem groups_eq (h : s.Normal) :
    TokenDraft.grouped (s.groups.map TokenGroup.name) s.tokens = s.groups :=
  TokenDraft.grouped_flatMap h.names_nodup h.category_eq

theorem exists_ofValue_value (h : s.Normal) : ∃ s', ofValue s.value = .ok s' := by
  refine exists_ofValue_iff.mpr ⟨⟨_, rfl, ?_⟩, ?_, ?_⟩
  · exact List.forall_mem_map.mpr fun g _ => ⟨_, rfl⟩
  · intro l hl
    rw [sources_value] at hl
    obtain ⟨g, -, hl⟩ := List.mem_flatMap.mp hl
    obtain ⟨t, -, rfl⟩ := List.mem_map.mp hl
    nofun
  · rw [h.map_token]
    exact h.flats_nodup

theorem ofValue_value (h : s.Normal) : ofValue s.value = .ok s := by
  obtain ⟨s', hs'⟩ := h.exists_ofValue_value
  obtain ⟨d, hd, hgroups⟩ := exists_addAll_of_ofValue hs'
  have hnames : (categories s.value).map (fun c => Text.kebab c.1) =
      s.groups.map TokenGroup.name := by
    rw [value, categories, List.map_map]
    exact List.map_congr_left fun g hg => (h.inKebab_group g hg).kebab_eq
  have hsame : s'.groups = s.groups := by
    rw [hgroups, TokenDraft.groups_of_addAll hd, hnames, TokenDraft.eraseDups_of_nodup h.names_nodup,
      ← sources, h.map_token, h.groups_eq]
  obtain ⟨groups⟩ := s'
  cases hsame
  exact hs'

theorem keysOnce (h : s.Normal) : s.value.Throughout Value.KeysOnce := by
  rw [value, Value.keysOnce_map_iff, Props.keys, List.map_map]
  refine ⟨h.names_nodup, List.forall_mem_map.mpr fun g hg => ?_⟩
  rw [Value.keysOnce_map_iff, Props.keys, TokenGroup.members, List.map_map]
  refine ⟨?_, List.forall_mem_map.mpr fun t _ => trivial⟩
  have hflats : (TokenDraft.flats g.tokens).Nodup := by
    have hall := h.flats_nodup
    rw [TokenDraft.flats, tokens, List.map_flatMap, List.nodup_flatMap] at hall
    exact hall.1 g hg
  refine List.Nodup.of_map (TokenDraft.flatKey g.name) ?_
  rw [List.map_map]
  refine (List.map_congr_left fun t ht => ?_) ▸ hflats
  rw [h.category_eq g hg t ht]
  rfl

end Normal

/-- The set that a file gives comes back from the file that it makes itself, with its categories in
their order, also those that are empty. In that file no key comes twice, and kebab case leaves all of
them as they are. -/
theorem value_reread {v : Value} {s : TokenSet} (h : ofValue v = .ok s) :
    ofValue s.value = .ok s ∧ s.value.Throughout Value.KeysOnce ∧
      (∀ g ∈ s.groups, Text.kebab g.name = g.name) ∧
      ∀ t ∈ s.tokens, Text.kebab t.category = t.category ∧ Text.kebab t.name = t.name := by
  have hs := normal_of_ofValue h
  refine ⟨hs.ofValue_value, hs.keysOnce, fun g hg => (hs.inKebab_group g hg).kebab_eq, ?_⟩
  intro t ht
  obtain ⟨g, hg, htg⟩ := List.mem_flatMap.mp ht
  have hcategory := hs.category_eq g hg t htg
  exact ⟨hcategory ▸ (hs.inKebab_group g hg).kebab_eq, (hs.inKebab_token t ht).kebab_eq⟩

def gathered : Value :=
  .map [
    ("fontSize", .map [("value", .string "12px"),
      ("lineHeight", .map [("$value", .list [.string "1", .bool true])])]),
    ("Ink", .map []),
    ("font_size", .map [("sm X", .map [("a", .string "b")])])]

theorem ofValue_gathered : ofValue gathered =
    .ok ⟨[⟨"font-size", [⟨"font-size", "value", "12px"⟩, ⟨"font-size", "line-height", "1, true"⟩,
      ⟨"font-size", "sm-x-a", "b"⟩]⟩, ⟨"ink", []⟩]⟩ := rfl

theorem value_reread_gathered :
    ∃ s, ofValue gathered = .ok s ∧
      s.value = .map [
        ("font-size", .map [("value", .string "12px"), ("line-height", .string "1, true"),
          ("sm-x-a", .string "b")]),
        ("ink", .map [])] ∧
      ofValue s.value = .ok s ∧ s.value.Throughout Value.KeysOnce ∧
      (∀ g ∈ s.groups, Text.kebab g.name = g.name) ∧
      ∀ t ∈ s.tokens, Text.kebab t.category = t.category ∧ Text.kebab t.name = t.name :=
  ⟨_, ofValue_gathered, rfl, value_reread ofValue_gathered⟩

end TokenSet

end StaticSite
