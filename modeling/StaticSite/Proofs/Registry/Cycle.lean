import Mathlib.Data.List.Chain
import StaticSite.Proofs.Registry.Entered

namespace StaticSite.DependencyGraph

open Relation

variable {g : DependencyGraph} {a b : String} {path done names : List String}

/-- A way that leads from a name through other names, each but once, back to it. -/
def Round (g : DependencyGraph) (a : String) (names : List String) : Prop :=
  ∃ between, names = a :: (between ++ [a]) ∧ (a :: between).Nodup ∧ names.IsChain g.Edge

theorem Round.transGen (h : g.Round a names) : TransGen g.Edge a a := by
  obtain ⟨between, rfl, -, hchain⟩ := h
  have hchain := hchain.imp fun _ _ => TransGen.single
  exact hchain.rel_cons (by simp)

theorem Round.mono {g' : DependencyGraph} (h : g.Round a names) (hb : b ∉ names)
    (hedge : ∀ x y, x ≠ b → g.Edge x y → g'.Edge x y) : g'.Round a names := by
  obtain ⟨between, rfl, hnodup, hchain⟩ := h
  refine ⟨between, rfl, hnodup, hchain.imp_of_mem_imp fun x y hx _ hxy => ?_⟩
  exact hedge x y (ne_of_mem_of_not_mem hx hb) hxy

theorem cycleAt_round (hpath : (a :: path).IsChain fun x y => g.Edge y x) (hnodup : path.Nodup)
    (ha : a ∈ path) (hlast : (a :: path).getLast? = some b) :
    g.Round a (cycleAt a path) ∧ (a = b ∨ b ∉ cycleAt a path) := by
  obtain ⟨before, rest, rfl, hbefore⟩ := List.eq_append_cons_of_mem ha
  have hcycle : cycleAt a (before ++ a :: rest) = (a :: (before ++ [a])).reverse := by
    have htake : (before ++ a :: rest).takeWhile (· ≠ a) = before := by
      rw [List.takeWhile_append_of_pos fun x hx => by
        simpa using ne_of_mem_of_not_mem hx hbefore]
      simp
    rw [cycleAt, htake]
    simp
  rw [hcycle]
  obtain ⟨-, -, hapart⟩ := List.nodup_append.mp hnodup
  refine ⟨⟨before.reverse, by simp, ?_, ?_⟩, ?_⟩
  · simpa [hbefore] using hnodup.of_append_left
  · rw [List.isChain_reverse]
    exact hpath.prefix ⟨rest, by simp⟩
  · have hb : b ∈ a :: rest := by
      rw [← List.cons_append, List.getLast?_append_of_ne_nil _ (by simp)] at hlast
      exact List.mem_of_getLast? hlast
    have hbb : b ∉ before := fun hmem => hapart b hmem b hb rfl
    by_cases hab : a = b
    · exact .inl hab
    · exact .inr (by simp [hbb, Ne.symm hab])

theorem search_round {fuel : Nat} (hpath : (a :: path).IsChain fun x y => g.Edge y x)
    (hnodup : path.Nodup) (hlast : (a :: path).getLast? = some b)
    (h : g.search fuel path done a = .error names) :
    ∃ c, g.Round c names ∧ (c = b ∨ b ∉ names) := by
  induction fuel generalizing path done a with
  | zero => cases h
  | succ fuel ih =>
    rw [search] at h
    split at h
    · cases h
    · split at h
      · next hmem =>
        cases h
        exact ⟨a, cycleAt_round hpath hnodup (List.contains_iff_mem.mp hmem) hlast⟩
      · next hmem =>
        split at h
        · cases h
        · next next hnext =>
          -- The search goes on below a name that joins the path.
          obtain hfold | ⟨_, _, hend⟩ := exists_of_bind_eq_error h
          · obtain ⟨c, hc, done', hstep⟩ := exists_of_foldlM_error hfold
            refine ih (hpath.cons ?_) ?_ ?_ hstep
            · simpa using ⟨next, hnext, hc⟩
            · simpa using ⟨by simpa using hmem, hnodup⟩
            · rw [List.getLast?_cons_cons, hlast]
          · cases hend

variable {dependencies : List String}

theorem edge_of_ne (hab : a ≠ b) {c : String} (h : Edge ((b, dependencies) :: g) a c) :
    g.Edge a c := by
  obtain ⟨names, hn, hc⟩ := h
  refine ⟨names, ?_, hc⟩
  simpa [List.lookup_cons, beq_false_of_ne hab] using hn

theorem transGen_new (hg : g.Acyclic) (h : ¬Acyclic ((b, dependencies) :: g)) :
    TransGen (Edge ((b, dependencies) :: g)) b b := by
  have hpass : ∀ {x y}, TransGen (Edge ((b, dependencies) :: g)) x y →
      TransGen g.Edge x y ∨ ReflTransGen (Edge ((b, dependencies) :: g)) x b ∧
        TransGen (Edge ((b, dependencies) :: g)) b y := by
    intro x y hxy
    induction hxy using TransGen.head_induction_on with
    | single hxy =>
      rename_i x
      by_cases hx : x = b
      · exact .inr ⟨hx ▸ .refl, .single (hx ▸ hxy)⟩
      · exact .inl (.single (edge_of_ne hx hxy))
    | head hxz hzy ih =>
      rename_i x z
      by_cases hx : x = b
      · subst hx
        exact .inr ⟨.refl, .head hxz hzy⟩
      · exact ih.imp (.head (edge_of_ne hx hxz)) fun ⟨hzb, hby⟩ => ⟨.head hxz hzb, hby⟩
  obtain ⟨x, hx⟩ : ∃ x, TransGen (Edge ((b, dependencies) :: g)) x x := by
    simpa [Acyclic] using h
  obtain hx | ⟨hxb, hbx⟩ := hpass hx
  · exact absurd hx (hg x)
  · exact hbx.trans_left hxb

theorem cycle?_round (hg : g.Acyclic) (h : cycle? ((b, dependencies) :: g) = some names) :
    Round ((b, dependencies) :: g) b names := by
  have hcyclic : ¬Acyclic ((b, dependencies) :: g) := by
    rw [← cycle?_eq_none_iff, h]
    nofun
  unfold cycle? at h
  split at h
  · cases h
  · next names' hsearch =>
    cases h
    rw [List.map_cons, List.foldlM_cons] at hsearch
    obtain hfirst | ⟨done, hfirst, -⟩ := exists_of_bind_eq_error hsearch
    · obtain ⟨c, hround, rfl | hc⟩ := search_round (by simp) (by simp) rfl hfirst
      · exact hround
      · exact absurd (hround.mono hc fun _ _ hx => edge_of_ne hx).transGen (hg c)
    · -- A search from the new name that finds nothing has settled it.
      have hnil : Settled ((b, dependencies) :: g) [] := trivial
      have covers := search_ok (by simp [fresh, keys]) hnil hfirst
      have hb := transGen_new hg hcyclic
      obtain hdone | hnone := covers.known b (by simp)
      · exact absurd hb (covers.settled.not_cyclic hdone)
      · simp at hnone

end StaticSite.DependencyGraph

namespace StaticSite.Registry

open DependencyGraph

/-- The search for a cycle that a fragment would bring about finds one exactly if there is one, and
then gives a way from the name of the fragment through other names, each but once, back to it. -/
theorem cycle_found_iff {r : Registry} {f : Fragment} (hr : r.graph.Acyclic) :
    (cycle? ((f.name, f.dependencies) :: r.graph) = none ↔
        Acyclic ((f.name, f.dependencies) :: r.graph)) ∧
      ∀ names, cycle? ((f.name, f.dependencies) :: r.graph) = some names →
        ∃ between, names = f.name :: (between ++ [f.name]) ∧ (f.name :: between).Nodup ∧
          names.IsChain (Edge ((f.name, f.dependencies) :: r.graph)) :=
  ⟨cycle?_eq_none_iff, fun _ => cycle?_round hr⟩

theorem cycle_found_ring :
    let card : Fragment := { name := "card", dependencies := ["icon", "list"], body := .native [] }
    let list : Fragment := { name := "list", dependencies := ["item"], body := .native [] }
    let item : Fragment := { name := "item", dependencies := ["icon", "card"], body := .native [] }
    let ring := (item.name, item.dependencies) :: (entered [card, list]).graph
    (entered [card, list]).graph.Acyclic ∧ ¬Acyclic ring ∧
      cycle? ring = some ["item", "card", "list", "item"] ∧
      ["item", "card", "list", "item"].IsChain (Edge ring) := by
  intro card list item ring
  have hacyclic := (wellFormed_entered [card, list]).acyclic
  have hfound : cycle? ring = some ["item", "card", "list", "item"] := by decide +kernel
  obtain ⟨hnone, hround⟩ := cycle_found_iff (f := item) hacyclic
  obtain ⟨_, _, _, hchain⟩ := hround _ hfound
  refine ⟨hacyclic, fun hring => ?_, hfound, hchain⟩
  cases hfound.symm.trans (hnone.mpr hring)

end StaticSite.Registry
