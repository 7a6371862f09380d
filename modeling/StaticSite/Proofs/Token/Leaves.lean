import Mathlib.Data.List.Induction
import Mathlib.Data.List.Nodup
import Mathlib.Data.Option.Basic
import StaticSite.Proofs.Text.Kebab
import StaticSite.Proofs.Token.Distinct

namespace StaticSite

namespace Value

mutual

/-- A value in which each map with a `value`, or else a `$value`, gives way to that member. -/
def unwrap : Value → Value
  | .map members =>
    match unwrapMember? "value" members with
    | some v => v
    | none =>
      match unwrapMember? "$value" members with
      | some v => v
      | none => .map (unwrapMembers members)
  | v => v

def unwrapMember? (wanted : String) : List (String × Value) → Option Value
  | [] => none
  | (k, v) :: rest => if k = wanted then some v.unwrap else unwrapMember? wanted rest

def unwrapMembers : List (String × Value) → List (String × Value)
  | [] => []
  | (k, v) :: rest => (k, v.unwrap) :: unwrapMembers rest

end

mutual

def leaves : Value → List (List String × Value)
  | .map members => memberLeaves members
  | v => [([], v)]

def memberLeaves : List (String × Value) → List (List String × Value)
  | [] => []
  | (k, v) :: rest => v.leaves.map (fun l => (k :: l.1, l.2)) ++ memberLeaves rest

end

end Value

structure TokenSource where
  category : String
  keys : List String
  value : Value

namespace TokenSource

def name (l : TokenSource) : String := "-".intercalate (l.keys.map Text.kebab)

theorem inKebab_name (l : TokenSource) : Text.InKebab l.name := by
  refine Text.inKebab_intercalate fun s hs => ?_
  obtain ⟨k, -, rfl⟩ := List.mem_map.mp hs
  exact Text.inKebab_kebab k

def token (l : TokenSource) : Token := ⟨Text.kebab l.category, l.name, l.value.tokenText⟩

def ofCategory (category : String) : Value → List TokenSource
  | .map members =>
    (Value.memberLeaves (Value.unwrapMembers members)).map fun l => ⟨category, l.1, l.2⟩
  | _ => []

def ofCategories (categories : List (String × Value)) : List TokenSource :=
  categories.flatMap fun c => ofCategory c.1 c.2

theorem ofCategories_cons (c : String × Value) (rest : List (String × Value)) :
    ofCategories (c :: rest) = ofCategory c.1 c.2 ++ ofCategories rest := List.flatMap_cons

theorem category_of_mem {category : String} {v : Value} {l : TokenSource}
    (h : l ∈ ofCategory category v) : l.category = category := by
  cases v with
  | map members =>
    obtain ⟨_, -, rfl⟩ := List.mem_map.mp h
    rfl
  | _ => cases h

end TokenSource

namespace TokenLeaf

inductive Reads (f : List String → String) :
    Except TokenFault (List TokenLeaf) → List (List String × Value) → Prop
  | ok {ts : List TokenLeaf} : (∀ l ∈ ls, l.2 ≠ .null) →
      ts.map (fun t => (t.name, t.value)) = ls.map (fun l => (f l.1, l.2.tokenText)) →
        Reads f (.ok ts) ls
  | error : l ∈ ls → l.2 = .null → Reads f (.error e) ls

namespace Reads

variable {f : List String → String} {x y : Except TokenFault (List TokenLeaf)}
  {ls rest : List (List String × Value)}

theorem nil : Reads f (.ok []) [] := .ok (by simp) rfl

theorem leaf {v : Value} (key : String) (h : v ≠ .null) :
    Reads f (.ok [⟨f [], key, v.tokenText⟩]) [([], v)] :=
  .ok (fun _ hl => List.mem_singleton.mp hl ▸ h) rfl

theorem cons {k : String} (hx : Reads (fun ks => f (k :: ks)) x ls) (hy : Reads f y rest) :
    Reads f (do let ts ← x; return ts ++ (← y)) (ls.map (fun l => (k :: l.1, l.2)) ++ rest) := by
  cases hx with
  | error hl hnull => exact .error (List.mem_append_left _ (List.mem_map_of_mem hl)) hnull
  | ok hls hts =>
    cases hy with
    | error hl hnull => exact .error (List.mem_append_right _ hl) hnull
    | ok hrest hts' =>
      refine .ok (fun l hl => ?_) (by simp [hts, hts'])
      obtain hl | hl := List.mem_append.mp hl
      · obtain ⟨l', hl', rfl⟩ := List.mem_map.mp hl
        exact hls l' hl'
      · exact hrest l hl

end Reads

def below (name : String) (keys : List String) : String :=
  keys.foldl (fun n k => n ++ "-" ++ Text.kebab k) name

theorem below_append (start name : String) (keys : List String) :
    below (start ++ name) keys = start ++ below name keys := by
  induction keys generalizing name with
  | nil => rfl
  | cons k keys ih =>
    change below (start ++ name ++ "-" ++ Text.kebab k) keys =
      start ++ below (name ++ "-" ++ Text.kebab k) keys
    rw [String.append_assoc, String.append_assoc, ih, ← String.append_assoc]

theorem intercalate_kebab (k : String) (keys : List String) :
    "-".intercalate ((k :: keys).map Text.kebab) = below (Text.kebab k) keys := by
  induction keys generalizing k with
  | nil => rfl
  | cons l keys ih =>
    rw [List.map_cons, List.map_cons, String.intercalate_cons_cons, ← List.map_cons, ih,
      ← below_append]
    rfl

mutual

theorem ofValue_reads (name key : String) :
    (v : Value) → Reads (below name) (ofValue name key v) v.unwrap.leaves
  | .null => by
    rw [ofValue]
    exact .error List.mem_cons_self rfl
  | .bool b => by
    rw [ofValue]
    exact .leaf key nofun
  | .number n => by
    rw [ofValue]
    exact .leaf key nofun
  | .string s => by
    rw [ofValue]
    exact .leaf (v := .string s) key nofun
  | .list items => by
    rw [ofValue]
    exact .leaf key nofun
  | .map members => by
    rw [ofValue, Value.unwrap]
    have hvalue := ofMember?_reads "value" name key members
    generalize ofMember? "value" name key members = x at hvalue ⊢
    generalize Value.unwrapMember? "value" members = v at hvalue ⊢
    cases hvalue with
    | some h => exact h
    | none =>
      have hdollar := ofMember?_reads "$value" name key members
      generalize ofMember? "$value" name key members = x at hdollar ⊢
      generalize Value.unwrapMember? "$value" members = v at hdollar ⊢
      cases hdollar with
      | some h => exact h
      | none => exact ofMembers_reads name key members

theorem ofMember?_reads (wanted name key : String) : (members : List (String × Value)) →
    Option.Rel (fun x v => Reads (below name) x v.leaves) (ofMember? wanted name key members)
      (Value.unwrapMember? wanted members)
  | [] => .none
  | (k, v) :: rest => by
    rw [ofMember?, Value.unwrapMember?]
    split
    · exact .some (ofValue_reads name key v)
    · exact ofMember?_reads wanted name key rest

theorem ofMembers_reads (name key : String) : (members : List (String × Value)) →
    Reads (below name) (ofMembers name key members)
      (Value.memberLeaves (Value.unwrapMembers members))
  | [] => .nil
  | (k, v) :: rest => by
    rw [ofMembers, Value.unwrapMembers, Value.memberLeaves]
    exact .cons (ofValue_reads _ _ v) (ofMembers_reads name key rest)

end

theorem ofCategory_reads (category : String) (members : List (String × Value)) :
    Reads (fun ks => "-".intercalate (ks.map Text.kebab)) (ofCategory category members)
      (Value.memberLeaves (Value.unwrapMembers members)) := by
  induction members with
  | nil => exact .nil
  | cons m rest ih =>
    obtain ⟨k, v⟩ := m
    rw [ofCategory, Value.unwrapMembers, Value.memberLeaves]
    refine .cons ?_ ih
    simp only [intercalate_kebab]
    exact ofValue_reads _ _ v

theorem tokens_of_ofCategory {category : String} {members : List (String × Value)}
    {ts : List TokenLeaf} (h : ofCategory category members = .ok ts) :
    (∀ l ∈ TokenSource.ofCategory category (.map members), l.value ≠ .null) ∧
      (TokenSource.ofCategory category (.map members)).map TokenSource.token =
        ts.map fun t => ⟨Text.kebab category, t.name, t.value⟩ := by
  have hreads := ofCategory_reads category members
  rw [h] at hreads
  cases hreads with
  | ok hls hts =>
    constructor
    · intro l hl
      obtain ⟨l', hl', rfl⟩ := List.mem_map.mp hl
      exact hls l' hl'
    · have hpairs := congrArg (List.map fun p => (⟨Text.kebab category, p.1, p.2⟩ : Token)) hts
      rw [List.map_map, List.map_map] at hpairs
      rw [TokenSource.ofCategory, List.map_map]
      exact hpairs.symm

theorem exists_null_of_ofCategory {category : String} {members : List (String × Value)}
    {e : TokenFault} (h : ofCategory category members = .error e) :
    ∃ l ∈ TokenSource.ofCategory category (.map members), l.value = .null := by
  have hreads := ofCategory_reads category members
  rw [h] at hreads
  cases hreads with
  | error hl hnull => exact ⟨_, List.mem_map_of_mem hl, hnull⟩

end TokenLeaf

namespace TokenDraft

theorem exists_note_iff {category : String} {seen : List (String × String)}
    {leaves : List TokenLeaf} (hseen : (seen.map Prod.fst).Nodup) :
    (∃ seen', note category seen leaves = .ok seen') ↔
      (leaves.map (fun l => flatKey category l.name) ++ seen.map Prod.fst).Nodup := by
  induction leaves generalizing seen with
  | nil => simp [note, hseen]
  | cons leaf rest ih =>
    rw [note]
    by_cases hmem : flatKey category leaf.name ∈ seen.map Prod.fst
    · obtain ⟨first, hfound⟩ :=
        Option.ne_none_iff_exists'.mp (mt lookup_eq_none_iff.mp (not_not.mpr hmem))
      simp [hfound, hmem]
    · simp only [lookup_eq_none_iff.mpr hmem]
      have hnoted : (((flatKey category leaf.name, leaf.key) :: seen).map Prod.fst).Nodup :=
        List.nodup_cons.mpr ⟨hmem, hseen⟩
      rw [ih hnoted]
      exact List.perm_middle.nodup_iff

theorem add_map (d : TokenDraft) (category : String) (members : List (String × Value)) :
    d.add category (.map members) = (do
      let leaves ← TokenLeaf.ofCategory category members
      let seen ← note (Text.kebab category) d.seen leaves
      return {
        groups := addTokens (Text.kebab category)
          (leaves.map fun l => ⟨Text.kebab category, l.name, l.value⟩) d.groups
        seen }) := rfl

theorem Noted.exists_add_iff {d : TokenDraft} (hd : d.Noted) (category : String) (group : Value) :
    (∃ d', d.add category group = .ok d') ↔ (∃ members, group = .map members) ∧
      (∀ l ∈ TokenSource.ofCategory category group, l.value ≠ .null) ∧
      (flats
        (d.tokens ++ (TokenSource.ofCategory category group).map TokenSource.token)).Nodup := by
  cases group with
  | map members =>
    rw [add_map]
    cases hread : TokenLeaf.ofCategory category members with
    | error e =>
      obtain ⟨l, hl, hnull⟩ := TokenLeaf.exists_null_of_ofCategory hread
      refine iff_of_false ?_ fun h => h.2.1 l hl hnull
      rintro ⟨_, h⟩
      cases h
    | ok ts =>
      obtain ⟨hls, htokens⟩ := TokenLeaf.tokens_of_ofCategory hread
      have hnote : (∃ seen', note (Text.kebab category) d.seen ts = .ok seen') ↔ _ :=
        exists_note_iff hd.nodup
      have hperm : (flats (d.tokens ++ ts.map fun t => ⟨Text.kebab category, t.name, t.value⟩)).Perm
          (ts.map (fun l => flatKey (Text.kebab category) l.name) ++ d.seen.map Prod.fst) := by
        rw [flats, List.map_append, List.map_map]
        exact (hd.perm.append_right _).trans List.perm_append_comm
      rw [htokens, hperm.nodup_iff, ← hnote]
      constructor
      · rintro ⟨d', h⟩
        obtain ⟨_, hts, h⟩ := exists_of_bind_eq_ok h
        obtain ⟨seen', hseen, -⟩ := exists_of_bind_eq_ok h
        cases hts
        exact ⟨⟨members, rfl⟩, hls, seen', hseen⟩
      · rintro ⟨-, -, seen', hseen⟩
        exact ⟨_, bind_eq_ok_iff.mpr ⟨ts, rfl, bind_eq_ok_iff.mpr ⟨seen', hseen, rfl⟩⟩⟩
  | _ =>
    refine iff_of_false ?_ ?_
    · rintro ⟨_, h⟩
      cases h
    · rintro ⟨⟨_, h⟩, _⟩
      cases h

theorem groups_of_add {d d' : TokenDraft} {category : String} {group : Value}
    (h : d.add category group = .ok d') :
    d'.groups = addTokens (Text.kebab category)
      ((TokenSource.ofCategory category group).map TokenSource.token) d.groups := by
  cases group with
  | map members =>
    rw [add_map] at h
    obtain ⟨ts, hread, h⟩ := exists_of_bind_eq_ok h
    obtain ⟨seen', -, h⟩ := exists_of_bind_eq_ok h
    cases h
    rw [(TokenLeaf.tokens_of_ofCategory hread).2]
  | _ => cases h

theorem tokens_of_add {d d' : TokenDraft} {category : String} {group : Value}
    (h : d.add category group = .ok d') :
    d'.tokens.Perm (d.tokens ++ (TokenSource.ofCategory category group).map TokenSource.token) := by
  rw [tokens, groups_of_add h]
  exact addTokens_perm _ _ _

def addAll (d : TokenDraft) (categories : List (String × Value)) : Except TokenFault TokenDraft :=
  categories.foldlM (fun d c => d.add c.1 c.2) d

theorem addAll_cons (d : TokenDraft) (c : String × Value) (rest : List (String × Value)) :
    d.addAll (c :: rest) = d.add c.1 c.2 >>= fun d' => d'.addAll rest := List.foldlM_cons

theorem flats_append_perm {ts us vs : List Token} (h : ts.Perm us) :
    (flats (ts ++ vs)).Perm (flats (us ++ vs)) := (h.append_right vs).map _

theorem Noted.exists_addAll_iff {d : TokenDraft} (hd : d.Noted)
    (categories : List (String × Value)) :
    (∃ d', d.addAll categories = .ok d') ↔ (∀ c ∈ categories, ∃ members, c.2 = .map members) ∧
      (∀ l ∈ TokenSource.ofCategories categories, l.value ≠ .null) ∧
      (flats (d.tokens ++
        (TokenSource.ofCategories categories).map TokenSource.token)).Nodup := by
  induction categories generalizing d with
  | nil =>
    have hnodup : (flats d.tokens).Nodup := hd.perm.nodup_iff.mpr hd.nodup
    simpa [addAll, TokenSource.ofCategories, pure, Except.pure] using hnodup
  | cons c rest ih =>
    have hadd := hd.exists_add_iff c.1 c.2
    have hrest : ∀ {d'}, d.add c.1 c.2 = .ok d' →
        ((∃ d'', d'.addAll rest = .ok d'') ↔ (∀ c ∈ rest, ∃ members, c.2 = .map members) ∧
          (∀ l ∈ TokenSource.ofCategories rest, l.value ≠ .null) ∧
          (flats
            (d.tokens ++ (TokenSource.ofCategories (c :: rest)).map TokenSource.token)).Nodup) := by
      intro d' h
      rw [ih (hd.add h), (flats_append_perm (tokens_of_add h)).nodup_iff, List.append_assoc,
        ← List.map_append]
      rfl
    rw [addAll_cons, List.forall_mem_cons, TokenSource.ofCategories_cons]
    simp only [List.forall_mem_append]
    constructor
    · rintro ⟨d'', h⟩
      obtain ⟨d', hd', h⟩ := exists_of_bind_eq_ok h
      obtain ⟨htable, hnull, -⟩ := hadd.mp ⟨d', hd'⟩
      obtain ⟨htables, hnulls, hnodup⟩ := (hrest hd').mp ⟨d'', h⟩
      exact ⟨⟨htable, htables⟩, ⟨hnull, hnulls⟩, hnodup⟩
    · rintro ⟨⟨htable, htables⟩, ⟨hnull, hnulls⟩, hnodup⟩
      have hfirst :
          (flats (d.tokens ++ (TokenSource.ofCategory c.1 c.2).map TokenSource.token)).Nodup := by
        rw [List.map_append, ← List.append_assoc, flats, List.map_append] at hnodup
        exact hnodup.of_append_left
      obtain ⟨d', hd'⟩ := hadd.mpr ⟨htable, hnull, hfirst⟩
      obtain ⟨d'', h⟩ := (hrest hd').mpr ⟨htables, hnulls, hnodup⟩
      exact ⟨d'', bind_eq_ok_iff.mpr ⟨d', hd', h⟩⟩

theorem eraseDups_concat (names : List String) (n : String) :
    (names ++ [n]).eraseDups = if n ∈ names then names.eraseDups else names.eraseDups ++ [n] := by
  rw [List.eraseDups_append]
  split <;> simp [List.removeAll, List.eraseDups_cons, *]

theorem nodup_eraseDups (names : List String) : names.eraseDups.Nodup := by
  induction names using List.reverseRecOn with
  | nil => exact List.nodup_nil
  | append_singleton names n ih =>
    rw [eraseDups_concat]
    split
    · exact ih
    · next hn =>
      refine List.nodup_append.mpr ⟨ih, List.nodup_singleton n, ?_⟩
      rintro m hm _ hn' rfl
      exact hn (List.mem_singleton.mp hn' ▸ List.mem_eraseDups.mp hm)

def grouped (names : List String) (ts : List Token) : List TokenGroup :=
  names.map fun n => ⟨n, ts.filter fun t => t.category = n⟩

theorem grouped_cons (m : String) (names : List String) (ts : List Token) :
    grouped (m :: names) ts = ⟨m, ts.filter fun t => t.category = m⟩ :: grouped names ts := rfl

theorem addTokens_grouped {names : List String} {ts us : List Token} {n : String}
    (hnames : names.Nodup) (hts : n ∉ names → ∀ t ∈ ts, t.category ≠ n)
    (hus : ∀ t ∈ us, t.category = n) :
    addTokens n us (grouped names ts) =
      grouped (if n ∈ names then names else names ++ [n]) (ts ++ us) := by
  have hown : us.filter (fun t => t.category = n) = us := by simpa using hus
  have hother : ∀ k, k ≠ n → (ts ++ us).filter (fun t => t.category = k) =
      ts.filter fun t => t.category = k := by
    intro k hk
    have hnone : us.filter (fun t => t.category = k) = [] := by
      simpa using fun t ht heq => hk (heq.symm.trans (hus t ht))
    rw [List.filter_append, hnone, List.append_nil]
  induction names with
  | nil =>
    have hnone : ts.filter (fun t => t.category = n) = [] := by simpa using hts
    simp [grouped, addTokens, hown, hnone]
  | cons m names ih =>
    rw [List.nodup_cons] at hnames
    rw [grouped_cons, addTokens]
    by_cases hm : m = n
    · subst hm
      have hrest : grouped names ts = grouped names (ts ++ us) := List.map_congr_left fun k hk => by
        rw [hother k fun h => hnames.1 (h ▸ hk)]
      rw [if_pos rfl, if_pos List.mem_cons_self, grouped_cons, hrest, List.filter_append, hown]
    · have hmem : n ∈ m :: names ↔ n ∈ names := by simp [Ne.symm hm]
      have hif : (if n ∈ m :: names then m :: names else m :: names ++ [n]) =
          m :: if n ∈ names then names else names ++ [n] := by
        simp only [hmem]
        split <;> rfl
      rw [if_neg hm, ih hnames.2 fun hn => hts (mt hmem.mp hn), hif, grouped_cons, hother m hm]

theorem tokens_of_addAll {d d' : TokenDraft} {categories : List (String × Value)}
    (h : d.addAll categories = .ok d') :
    d'.tokens.Perm (d.tokens ++ (TokenSource.ofCategories categories).map TokenSource.token) := by
  induction categories generalizing d with
  | nil =>
    cases h
    simp [TokenSource.ofCategories]
  | cons c rest ih =>
    rw [addAll_cons] at h
    obtain ⟨d₁, hd₁, h⟩ := exists_of_bind_eq_ok h
    refine (ih h).trans ?_
    rw [TokenSource.ofCategories_cons, List.map_append, ← List.append_assoc]
    exact (tokens_of_add hd₁).append_right _

theorem groups_of_addAll {d : TokenDraft} {categories : List (String × Value)}
    (h : ({} : TokenDraft).addAll categories = .ok d) :
    d.groups = grouped (categories.map fun c => Text.kebab c.1).eraseDups
      ((TokenSource.ofCategories categories).map TokenSource.token) := by
  induction categories using List.reverseRecOn generalizing d with
  | nil =>
    cases h
    rfl
  | append_singleton cs c ih =>
    rw [addAll, List.foldlM_append] at h
    obtain ⟨d₁, hd₁, h⟩ := exists_of_bind_eq_ok h
    obtain ⟨d₂, hd₂, h⟩ := exists_of_bind_eq_ok h
    cases h
    have hearlier : Text.kebab c.1 ∉ (cs.map fun c => Text.kebab c.1).eraseDups →
        ∀ t ∈ (TokenSource.ofCategories cs).map TokenSource.token,
          t.category ≠ Text.kebab c.1 := by
      intro hnew t ht heq
      obtain ⟨l, hl, rfl⟩ := List.mem_map.mp ht
      obtain ⟨c', hc', hl⟩ := List.mem_flatMap.mp hl
      refine hnew (List.mem_eraseDups.mpr (List.mem_map.mpr ⟨c', hc', ?_⟩))
      rw [← heq, TokenSource.token, TokenSource.category_of_mem hl]
    have hown : ∀ t ∈ (TokenSource.ofCategory c.1 c.2).map TokenSource.token,
        t.category = Text.kebab c.1 := by
      intro t ht
      obtain ⟨l, hl, rfl⟩ := List.mem_map.mp ht
      rw [TokenSource.token, TokenSource.category_of_mem hl]
    rw [groups_of_add hd₂, ih hd₁, addTokens_grouped (nodup_eraseDups _) hearlier hown,
      List.map_append, List.map_singleton, eraseDups_concat, ← List.map_append]
    simp only [List.mem_eraseDups]
    rw [TokenSource.ofCategories, TokenSource.ofCategories, List.flatMap_append,
      List.flatMap_singleton]

end TokenDraft

namespace TokenSet

def categories : Value → List (String × Value)
  | .map categories => categories
  | _ => []

def sources (v : Value) : List TokenSource := TokenSource.ofCategories (categories v)

theorem ofValue_map (categories : List (String × Value)) :
    ofValue (.map categories) = (do
      let d ← ({} : TokenDraft).addAll categories
      return { groups := d.groups }) := rfl

theorem exists_ofValue_iff {v : Value} :
    (∃ s, ofValue v = .ok s) ↔
      (∃ categories, v = .map categories ∧ ∀ c ∈ categories, ∃ members, c.2 = .map members) ∧
        (∀ l ∈ sources v, l.value ≠ .null) ∧
        (TokenDraft.flats ((sources v).map TokenSource.token)).Nodup := by
  cases v with
  | map cs =>
    have hall := TokenDraft.noted_empty.exists_addAll_iff cs
    have hread : (∃ s, ofValue (.map cs) = .ok s) ↔ ∃ d, ({} : TokenDraft).addAll cs = .ok d := by
      rw [ofValue_map]
      constructor
      · rintro ⟨s, h⟩
        obtain ⟨d, hd, -⟩ := exists_of_bind_eq_ok h
        exact ⟨d, hd⟩
      · rintro ⟨d, hd⟩
        exact ⟨_, bind_eq_ok_iff.mpr ⟨d, hd, rfl⟩⟩
    rw [hread, hall]
    simp [sources, categories, TokenDraft.tokens]
  | _ =>
    refine iff_of_false ?_ ?_
    · rintro ⟨_, h⟩
      cases h
    · rintro ⟨⟨_, h, _⟩, _⟩
      cases h

theorem exists_addAll_of_ofValue {v : Value} {s : TokenSet} (h : ofValue v = .ok s) :
    ∃ d, ({} : TokenDraft).addAll (categories v) = .ok d ∧ s.groups = d.groups := by
  cases v with
  | map cs =>
    rw [ofValue_map] at h
    obtain ⟨d, hd, h⟩ := exists_of_bind_eq_ok h
    cases h
    exact ⟨d, hd, rfl⟩
  | _ => cases h

theorem tokens_perm {v : Value} {s : TokenSet} (h : ofValue v = .ok s) :
    s.tokens.Perm ((sources v).map TokenSource.token) := by
  obtain ⟨d, hd, hgroups⟩ := exists_addAll_of_ofValue h
  rw [tokens, hgroups]
  simpa [TokenDraft.tokens, sources] using TokenDraft.tokens_of_addAll hd

/-- A value is a token file if and only if it is a table of tables, no leaf is null and no two
leaves get the same key. Its tokens then are its leaves, grouped by their categories in the order in
which these first come, and in file order within a group. -/
theorem ofValue_sources (v : Value) :
    ((∃ s, ofValue v = .ok s) ↔
      (∃ categories, v = .map categories ∧ ∀ c ∈ categories, ∃ members, c.2 = .map members) ∧
        (∀ l ∈ sources v, l.value ≠ .null) ∧
        (TokenDraft.flats ((sources v).map TokenSource.token)).Nodup) ∧
    ∀ s, ofValue v = .ok s →
      s.tokens.Perm ((sources v).map TokenSource.token) ∧
      s.groups = ((categories v).map fun c => Text.kebab c.1).eraseDups.map (fun name =>
        ⟨name, ((sources v).map TokenSource.token).filter fun t => t.category = name⟩) ∧
      (s.groups.map TokenGroup.name).Nodup ∧
      (s.tokens.map fun t => (t.category, t.name)).Nodup := by
  refine ⟨exists_ofValue_iff, fun s h => ?_⟩
  obtain ⟨d, hd, hgroups⟩ := exists_addAll_of_ofValue h
  have hgrouped := hgroups.trans (TokenDraft.groups_of_addAll hd)
  refine ⟨tokens_perm h, hgrouped, ?_, ?_⟩
  · rw [hgrouped, TokenDraft.grouped, List.map_map]
    exact (List.map_id _).symm ▸ TokenDraft.nodup_eraseDups _
  · have hflats := TokenDraft.nodup_flats h
    refine List.Nodup.of_map (fun p => TokenDraft.flatKey p.1 p.2) ?_
    rwa [List.map_map]

def folded : Value :=
  .map [
    ("fontSize", .map [("sm", .string "12px"),
      ("base", .map [("note", .null), ("$value", .string "14px")])]),
    ("ink", .map [("main", .map [("soft_dark", .list [.string "#111", .bool true])])]),
    ("font-size", .map [("xl", .string "20px")])]

theorem ofValue_folded : ofValue folded =
    .ok ⟨[⟨"font-size", [⟨"font-size", "sm", "12px"⟩, ⟨"font-size", "base", "14px"⟩,
      ⟨"font-size", "xl", "20px"⟩]⟩, ⟨"ink", [⟨"ink", "main-soft-dark", "#111, true"⟩]⟩]⟩ := rfl

theorem ofValue_sources_folded :
    ∃ s, ofValue folded = .ok s ∧
      s.tokens.Perm ((sources folded).map TokenSource.token) ∧
      s.groups = ((categories folded).map fun c => Text.kebab c.1).eraseDups.map (fun name =>
        ⟨name, ((sources folded).map TokenSource.token).filter fun t => t.category = name⟩) ∧
      (s.groups.map TokenGroup.name).Nodup ∧
      (s.tokens.map fun t => (t.category, t.name)).Nodup :=
  ⟨_, ofValue_folded, (ofValue_sources folded).2 _ ofValue_folded⟩

end TokenSet

end StaticSite
