import Mathlib.Data.Set.List
import StaticSite.Proofs.Registry.Entered

namespace StaticSite

theorem DependencyGraph.Settled.of_append {g : DependencyGraph} {names done : List String}
    (h : g.Settled (names ++ done)) : g.Settled done := by
  induction names with
  | nil => exact h
  | cons a names ih => exact ih h.2

namespace Registry

open DependencyGraph Relation

variable {r : Registry}

theorem WellFormed.lookup_eq_none_iff (h : r.WellFormed) {name : String} :
    r.graph.lookup name = none ↔ r.find? name = none := by
  rw [find?, Option.map_eq_none_iff, h.id?_eq_none_iff, ← keys_graph, mem_keys_iff, not_not]

theorem WellFormed.mem_of_known (h : r.WellFormed) (id : r.Id) {names : List String}
    (hid : r.graph.Known names (r.get id).name) : (r.get id).name ∈ names := by
  refine hid.resolve_right fun hnone => ?_
  rw [h.lookup_eq_none_iff, h.find?_name (r.get_mem id)] at hnone
  cases hnone

/-- A walk that has come by the names on its way, whose end is not yet in the order, and by those in
the order. Each of these stands after all that it depends on. -/
structure Ordered (r : Registry) (way : List String) (w : Walk) : Prop where
  seen_iff : ∀ a, a ∈ w.seen ↔ a ∈ w.order ∨ a ∈ way
  apart : ∀ a ∈ w.order, a ∉ way
  nodup : w.order.Nodup
  registered : ∀ a ∈ w.order, a ∈ r.names
  settled : r.graph.Settled w.order.reverse

structure Brings (r : Registry) (way names : List String) (w w' : Walk) : Prop where
  ordered : r.Ordered way w'
  subset : w.order ⊆ w'.order
  known : ∀ a ∈ names, r.graph.Known w'.order a

variable {way names : List String} {w w' : Walk} {name : String}

theorem ordered_empty : r.Ordered [] {} := ⟨by simp, by simp, .nil, by simp, trivial⟩

theorem Ordered.brings_of_known (hw : r.Ordered way w) (h : r.graph.Known w.order name) :
    r.Brings way [name] w w := ⟨hw, List.Subset.refl _, by simpa using h⟩

theorem Ordered.foldl {step : Walk → String → Walk}
    (hstep : ∀ a ∈ names, ∀ w, r.Ordered way w → r.Brings way [a] w (step w a))
    (hw : r.Ordered way w) : r.Brings way names w (names.foldl step w) := by
  induction names generalizing w with
  | nil => exact ⟨hw, List.Subset.refl _, by simp⟩
  | cons a names ih =>
    obtain ⟨ha, hnames⟩ := List.forall_mem_cons.mp hstep
    have first := ha w hw
    have rest := ih hnames first.ordered
    refine ⟨rest.ordered, fun b hb => rest.subset (first.subset hb), ?_⟩
    refine List.forall_mem_cons.mpr ⟨?_, rest.known⟩
    exact (first.known a List.mem_cons_self).mono rest.subset

theorem Ordered.enter (hw : r.Ordered way w) (hname : name ∉ w.seen) :
    r.Ordered (name :: way) { w with seen := name :: w.seen } := by
  have horder : name ∉ w.order := fun h => hname ((hw.seen_iff name).mpr (.inl h))
  refine ⟨fun a => ?_, fun a ha => ?_, hw.nodup, hw.registered, hw.settled⟩
  · rw [List.mem_cons, List.mem_cons, hw.seen_iff, or_left_comm]
  · exact List.not_mem_cons_of_ne_of_not_mem (ne_of_mem_of_not_mem ha horder) (hw.apart a ha)

theorem Ordered.leave (hw : r.Ordered (name :: way) w) (hway : name ∉ way) (hname : name ∈ r.names)
    (hknown : ∀ b, r.graph.Edge name b → r.graph.Known w.order b) :
    r.Ordered way { w with order := w.order ++ [name] } := by
  have horder : name ∉ w.order := fun h => hw.apart name h List.mem_cons_self
  refine ⟨fun a => ?_, fun a ha => ?_, ?_, ?_, ?_⟩
  · simp [hw.seen_iff, or_assoc]
  · obtain ha | rfl : a ∈ w.order ∨ a = name := by simpa using ha
    · exact fun hmem => hw.apart a ha (List.mem_cons_of_mem _ hmem)
    · exact hway
  · simpa [List.nodup_append, hw.nodup] using fun a ha => ne_of_mem_of_not_mem ha horder
  · simpa [or_imp, forall_and, hname] using hw.registered
  · rw [List.reverse_append]
    refine ⟨fun b hb => ?_, hw.settled⟩
    simpa [Known] using hknown b hb

theorem WellFormed.visit_brings (hr : r.WellFormed) {fuel : Nat} (hfuel : r.graph.rank name < fuel)
    (hway : ∀ p ∈ way, TransGen r.graph.Edge p name) (hw : r.Ordered way w) :
    r.Brings way [name] w (r.visit fuel w name) := by
  induction fuel generalizing way w name with
  | zero => omega
  | succ fuel ih =>
    have hout : name ∉ way := fun h => hr.acyclic name (hway name h)
    rw [visit]
    split
    · next hseen =>
      -- The name is not on its own way, so it is in the order already.
      have hmem := (hw.seen_iff name).mp (List.contains_iff_mem.mp hseen)
      exact hw.brings_of_known (.inl (hmem.resolve_right hout))
    · next hseen =>
      split
      · next hnone => exact hw.brings_of_known (.inr (hr.lookup_eq_none_iff.mpr hnone))
      · next f hf =>
        have hedge : ∀ {d}, r.graph.Edge name d ↔ d ∈ f.dependencies := by
          simp [hr.edge_iff, hf]
        have hnew : name ∉ w.seen := by simpa using hseen
        have below : ∀ d ∈ f.dependencies, ∀ v, r.Ordered (name :: way) v →
            r.Brings (name :: way) [d] v (r.visit fuel v d) := by
          intro d hd v hv
          have hd := hedge.mpr hd
          refine ih (Nat.lt_of_lt_of_le (hr.acyclic.rank_lt hd) (Nat.le_of_lt_succ hfuel)) ?_ hv
          exact List.forall_mem_cons.mpr ⟨.single hd, fun p hp => (hway p hp).tail hd⟩
        have all := (hw.enter hnew).foldl below
        have hname : name ∈ r.names := by
          obtain ⟨hmem, rfl⟩ := hr.find?_eq_some_iff.mp hf
          exact List.mem_map_of_mem hmem
        refine ⟨all.ordered.leave hout hname fun b hb => all.known b (hedge.mp hb), ?_, ?_⟩
        · exact fun a ha => List.mem_append_left _ (all.subset ha)
        · simp [Known]

theorem WellFormed.renderOrder_brings (hr : r.WellFormed) :
    ∃ w, r.renderOrder = w.order ∧ r.Brings [] r.names {} w := by
  refine ⟨_, rfl, ordered_empty.foldl fun name _ w hw => ?_⟩
  exact hr.visit_brings (Nat.lt_succ_of_le (r.rank_le_size name)) (by simp) hw

theorem Brings.exists_ids (hr : r.WellFormed) (hw : r.Brings [] r.names {} w) :
    ∃ ids : List r.Id, w.order = ids.map (fun id => (r.get id).name) ∧
      ∀ id, ids.count id = 1 := by
  have hrange : w.order ∈ Set.range (List.map fun id => (r.get id).name) := by
    rw [Set.range_list_map]
    exact fun a ha => mem_names_iff.mp (hw.ordered.registered a ha)
  obtain ⟨ids, hids⟩ := hrange
  refine ⟨ids, hids.symm, fun id => List.count_eq_one_of_mem ?_ ?_⟩
  · exact .of_map _ (hids ▸ hw.ordered.nodup)
  · have hmem := hr.mem_of_known id (hw.known _ (mem_names_iff.mpr ⟨id, rfl⟩))
    rwa [← hids, List.mem_map_of_injective hr.get_name_injective] at hmem

theorem WellFormed.mem_of_settled (hr : r.WellFormed) {before after : List r.Id} {id d : r.Id}
    (h : r.graph.Settled ((before ++ id :: after).map fun id => (r.get id).name).reverse)
    (hd : (r.get d).name ∈ (r.get id).dependencies) : d ∈ before := by
  rw [List.map_append, List.map_cons, List.reverse_append, List.reverse_cons,
    List.append_assoc] at h
  have hedge := hr.edge_iff.mpr ⟨_, hr.find?_name (r.get_mem id), hd⟩
  have hmem : (r.get d).name ∈ (before.map fun id => (r.get id).name).reverse :=
    hr.mem_of_known d (h.of_append.1 _ hedge)
  rwa [List.mem_reverse, List.mem_map_of_injective hr.get_name_injective] at hmem

/-- The order lists the names of all fragments that there are, each once, and no fragment before one
that it depends on. Dependencies that are not there do not count. -/
theorem renderOrder_topological (fs : List Fragment) :
    ∃ ids : List (entered fs).Id,
      (entered fs).renderOrder = ids.map (fun id => ((entered fs).get id).name) ∧
      (∀ id, ids.count id = 1) ∧
      ∀ before id after, ids = before ++ id :: after →
        ∀ d, ((entered fs).get d).name ∈ ((entered fs).get id).dependencies → d ∈ before := by
  have hr := wellFormed_entered fs
  obtain ⟨w, horder, hw⟩ := hr.renderOrder_brings
  obtain ⟨ids, hids, hcount⟩ := hw.exists_ids hr
  refine ⟨ids, horder.trans hids, hcount, fun before id after hsplit d hd => ?_⟩
  have hsettled := hw.ordered.settled
  rw [hids, hsplit] at hsettled
  exact hr.mem_of_settled hsettled hd

theorem renderOrder_topological_of_later :
    let page : Fragment := { name := "page", dependencies := ["card", "gone"], body := .native [] }
    let card : Fragment := { name := "card", body := .native [] }
    (entered [page, card]).renderOrder = ["card", "page"] ∧
      ∃ ids : List (entered [page, card]).Id,
        (entered [page, card]).renderOrder =
          ids.map (fun id => ((entered [page, card]).get id).name) ∧
        ∀ before after, ids = before ++ ⟨0, by decide⟩ :: after → ⟨1, by decide⟩ ∈ before := by
  intro page card
  obtain ⟨ids, hids, -, hlater⟩ := renderOrder_topological [page, card]
  refine ⟨by decide +kernel, ids, hids, fun before after hsplit => ?_⟩
  exact hlater before _ after hsplit _ (by decide)

end Registry

end StaticSite
