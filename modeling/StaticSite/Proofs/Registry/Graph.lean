import Mathlib.Data.Finset.Card
import Mathlib.Logic.Relation
import StaticSite.Proofs.Outcome
import StaticSite.Registry.Cycle

/-! Dependency graphs: what a name reaches, and that the search finds a cycle exactly if there is
one. -/

namespace StaticSite.DependencyGraph

open Relation

def keys (g : DependencyGraph) : List String := g.map Prod.fst

def Edge (g : DependencyGraph) (a b : String) : Prop := ∃ names, g.lookup a = some names ∧ b ∈ names

def Reaches (g : DependencyGraph) : String → String → Prop := ReflTransGen g.Edge

def Acyclic (g : DependencyGraph) : Prop := ∀ a, ¬TransGen g.Edge a a

theorem mem_keys_iff {g : DependencyGraph} {a : String} : a ∈ g.keys ↔ g.lookup a ≠ none := by
  simp [keys, List.lookup_eq_none_iff]

theorem Edge.mem_keys {g : DependencyGraph} {a b : String} (h : g.Edge a b) : a ∈ g.keys := by
  obtain ⟨names, hn, -⟩ := h
  simp [mem_keys_iff, hn]

theorem Acyclic.mono {g g' : DependencyGraph} (h : g.Acyclic) (he : ∀ a b, g'.Edge a b → g.Edge a b) :
    g'.Acyclic := fun a ha => h a (TransGen.mono he a a ha)

section Rank

open Classical

noncomputable def reached (g : DependencyGraph) (a : String) : Finset String :=
  g.keys.toFinset.filter (g.Reaches a)

noncomputable def rank (g : DependencyGraph) (a : String) : Nat := (g.reached a).card

theorem rank_le (g : DependencyGraph) (a : String) : g.rank a ≤ g.length := by
  calc
    g.rank a ≤ g.keys.toFinset.card := Finset.card_filter_le _ _
    _ ≤ g.keys.length := List.toFinset_card_le _
    _ = g.length := by simp [keys]

theorem rank_pos {g : DependencyGraph} {a : String} (h : a ∈ g.keys) : 0 < g.rank a := by
  apply Finset.card_pos.mpr
  exact ⟨a, by simpa [reached] using ⟨h, ReflTransGen.refl⟩⟩

theorem Acyclic.rank_lt {g : DependencyGraph} (h : g.Acyclic) {a b : String} (hab : g.Edge a b) :
    g.rank b < g.rank a := by
  apply Finset.card_lt_card
  rw [Finset.ssubset_iff_of_subset]
  · refine ⟨a, by simpa [reached] using ⟨hab.mem_keys, ReflTransGen.refl⟩, ?_⟩
    intro ha
    exact h a (TransGen.head' hab (Finset.mem_filter.mp ha).2)
  · intro c hc
    obtain ⟨hc, hbc⟩ := Finset.mem_filter.mp hc
    exact Finset.mem_filter.mpr ⟨hc, ReflTransGen.head hab hbc⟩

end Rank

def Known (g : DependencyGraph) (done : List String) (a : String) : Prop :=
  a ∈ done ∨ g.lookup a = none

def Settled (g : DependencyGraph) : List String → Prop
  | [] => True
  | a :: done => (∀ b, g.Edge a b → g.Known done b) ∧ g.Settled done

theorem Settled.known_of_transGen {g : DependencyGraph} {done : List String} (h : g.Settled done)
    {a b : String} (ha : g.Known done a) (hab : TransGen g.Edge a b) : g.Known done b := by
  induction hab using TransGen.head_induction_on with
  | single hab => exact step h ha hab
  | head hac _ ih => exact ih (step h ha hac)
where
  step {done : List String} (h : g.Settled done) {a b : String} (ha : g.Known done a)
      (hab : g.Edge a b) : g.Known done b := by
    obtain ha | ha := ha
    · induction done with
      | nil => cases ha
      | cons c done ih =>
        have weaken : g.Known done b → g.Known (c :: done) b := Or.imp_left (List.mem_cons_of_mem c)
        cases ha with
        | head => exact weaken (h.1 b hab)
        | tail _ ha => exact weaken (ih h.2 ha)
    · obtain ⟨names, hn, -⟩ := hab
      simp [ha] at hn

theorem Settled.not_cyclic {g : DependencyGraph} {done : List String} (h : g.Settled done)
    {a : String} (ha : a ∈ done) : ¬TransGen g.Edge a a := by
  intro hc
  induction done with
  | nil => cases ha
  | cons b done ih =>
    cases ha with
    | tail _ ha => exact ih h.2 ha
    | head =>
      -- The first step of the cycle leaves `a`, after which it never leaves the rest of the list.
      obtain ⟨c, hac, hca⟩ := TransGen.head'_iff.mp hc
      have known : g.Known done a := by
        obtain rfl | hca := reflTransGen_iff_eq_or_transGen.mp hca
        · exact h.1 a hac
        · exact h.2.known_of_transGen (h.1 c hac) hca
      obtain ha | ha := known
      · exact ih h.2 ha
      · obtain ⟨names, hn, -⟩ := hac
        simp [ha] at hn

structure Covers (g : DependencyGraph) (names done done' : List String) : Prop where
  settled : g.Settled done'
  subset : done ⊆ done'
  known : ∀ a ∈ names, g.Known done' a

theorem Known.mono {g : DependencyGraph} {done done' : List String} {a : String}
    (h : g.Known done a) (hd : done ⊆ done') : g.Known done' a := h.imp_left (@hd a)

theorem Covers.of_known {g : DependencyGraph} {done : List String} {a : String}
    (hd : g.Settled done) (ha : g.Known done a) : g.Covers [a] done done :=
  ⟨hd, List.Subset.refl _, by rintro b (_ | ⟨_, ⟨⟩⟩); exact ha⟩

theorem Covers.foldlM {g : DependencyGraph}
    {step : List String → String → Except (List String) (List String)}
    (hs : ∀ {done a done'}, g.Settled done → step done a = .ok done' → g.Covers [a] done done') :
    ∀ {names done done'}, g.Settled done → names.foldlM step done = .ok done' →
      g.Covers names done done'
  | [], done, done', hd, h => by
    cases h
    exact ⟨hd, List.Subset.refl _, by simp⟩
  | a :: names, done, done', hd, h => by
    rw [List.foldlM_cons] at h
    cases ha : step done a with
    | error e => simp [ha, bind, Except.bind] at h
    | ok done₁ =>
      have first := hs hd ha
      have rest := Covers.foldlM hs first.settled (by simpa [ha, bind, Except.bind] using h)
      refine ⟨rest.settled, fun b hb => rest.subset (first.subset hb), ?_⟩
      intro b hb
      cases hb with
      | head => exact (first.known a (by simp)).mono rest.subset
      | tail _ hb => exact rest.known b hb

def fresh (g : DependencyGraph) (path : List String) : List String :=
  g.keys.filter fun a => a ∉ path

theorem fresh_cons_lt {g : DependencyGraph} {path : List String} {a : String} (ha : a ∈ g.keys)
    (hp : a ∉ path) : (g.fresh (a :: path)).length < (g.fresh path).length := by
  have split : g.fresh (a :: path) = (g.fresh path).filter fun b => b ≠ a := by
    simp [fresh, List.filter_filter]
  rw [split]
  exact List.length_filter_lt_length_iff_exists.mpr ⟨a, by simp [fresh, ha, hp]⟩

theorem search_ok {g : DependencyGraph} {fuel : Nat} {path done done' : List String} {a : String}
    (hf : (g.fresh path).length < fuel) (hd : g.Settled done)
    (h : g.search fuel path done a = .ok done') : g.Covers [a] done done' := by
  induction fuel generalizing path done done' a with
  | zero => omega
  | succ fuel ih =>
    rw [search] at h
    split at h
    · next hmem =>
      cases h
      exact Covers.of_known hd (.inl (List.contains_iff_mem.mp hmem))
    · split at h
      · cases h
      · next hpath =>
        split at h
        · next hnone =>
          cases h
          exact Covers.of_known hd (.inr hnone)
        · next names hnames =>
          -- A name of the graph that joins the path is no longer fresh, which pays for the fuel.
          have hkey : a ∈ g.keys := by simp [mem_keys_iff, hnames]
          have hlt := fresh_cons_lt hkey (by simpa using hpath)
          cases hfold : names.foldlM (g.search fuel (a :: path)) done with
          | error e => simp [hfold, bind, Except.bind] at h
          | ok done₁ =>
            have below := Covers.foldlM (fun hd h => ih (by omega) hd h) hd hfold
            obtain rfl : a :: done₁ = done' := by
              simpa [hfold, bind, Except.bind, pure, Except.pure] using h
            refine ⟨⟨?_, below.settled⟩, List.subset_cons_of_subset a below.subset, by simp [Known]⟩
            rintro b ⟨names', hn, hb⟩
            rw [hnames, Option.some.injEq] at hn
            exact below.known b (hn ▸ hb)

theorem search_error {g : DependencyGraph} {fuel : Nat} {path done c : List String} {a : String}
    (hp : ∀ p ∈ path, TransGen g.Edge p a) (h : g.search fuel path done a = .error c) :
    ¬g.Acyclic := by
  induction fuel generalizing path done a with
  | zero => cases h
  | succ fuel ih =>
    rw [search] at h
    split at h
    · cases h
    · split at h
      · next hpath => exact fun hg => hg a (hp a (List.contains_iff_mem.mp hpath))
      · split at h
        · cases h
        · next names hnames =>
          cases hfold : names.foldlM (g.search fuel (a :: path)) done with
          | ok done' => simp [hfold, bind, Except.bind, pure, Except.pure] at h
          | error e =>
            obtain rfl : e = c := by simpa [hfold, bind, Except.bind] using h
            obtain ⟨b, hb, done', hstep⟩ := exists_of_foldlM_error hfold
            have hab : g.Edge a b := ⟨names, hnames, hb⟩
            refine ih (fun p hmem => ?_) hstep
            cases hmem with
            | head => exact .single hab
            | tail _ hmem => exact .tail (hp p hmem) hab

theorem cycle?_eq_none_iff {g : DependencyGraph} : g.cycle? = none ↔ g.Acyclic := by
  unfold cycle?
  split
  · next done h =>
    have hfresh : (g.fresh []).length < g.length + 1 := by simp [fresh, keys]
    have hnil : g.Settled [] := trivial
    have covers := Covers.foldlM (fun hd h => search_ok hfresh hd h) hnil h
    refine ⟨fun _ a ha => ?_, fun _ => rfl⟩
    obtain ⟨b, hab, -⟩ := TransGen.head'_iff.mp ha
    obtain hmem | hnone := covers.known a hab.mem_keys
    · exact covers.settled.not_cyclic hmem ha
    · exact mem_keys_iff.mp hab.mem_keys hnone
  · next names h =>
    obtain ⟨a, -, done, hstep⟩ := exists_of_foldlM_error h
    exact ⟨by simp, fun hg => absurd hg (search_error (by simp) hstep)⟩

end StaticSite.DependencyGraph
