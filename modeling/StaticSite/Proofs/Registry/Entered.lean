import Mathlib.Data.List.Nodup
import Mathlib.Data.List.Perm.Basic
import StaticSite.Proofs.Registry.Graph
import StaticSite.Registry.Basic

namespace StaticSite.Registry

open DependencyGraph

structure WellFormed (r : Registry) : Prop where
  names_nodup : r.names.Nodup
  names_valid : ∀ name ∈ r.names, isFragmentName name = true
  dependencies_valid : ∀ f ∈ r.fragments, ∀ d ∈ f.dependencies, isFragmentName d = true
  index_eq : ∀ name i, r.index.lookup name = some i ↔ r.names[i]? = some name
  acyclic : r.graph.Acyclic

theorem wellFormed_empty : WellFormed {} where
  names_nodup := List.nodup_nil
  names_valid := by simp [names]
  dependencies_valid := by simp
  index_eq := by simp [names]
  acyclic := by
    intro a ha
    obtain ⟨b, hab, -⟩ := Relation.TransGen.head'_iff.mp ha
    simpa [keys, graph] using hab.mem_keys

@[simp] theorem names_add (r : Registry) (f : Fragment) : (r.add f).names = r.names ++ [f.name] := by
  simp [names, add]

@[simp] theorem graph_add (r : Registry) (f : Fragment) :
    (r.add f).graph = r.graph ++ [(f.name, f.dependencies)] := by simp [graph, add]

@[simp] theorem keys_graph (r : Registry) : r.graph.keys = r.names := by
  simp [keys, graph, names, Function.comp_def]

@[simp] theorem length_graph (r : Registry) : r.graph.length = r.size := by simp [graph, size]

@[simp] theorem length_names (r : Registry) : r.names.length = r.size := by simp [names, size]

theorem get_mem (r : Registry) (id : r.Id) : r.get id ∈ r.fragments := List.getElem_mem _

theorem mem_names_iff {r : Registry} {name : String} :
    name ∈ r.names ↔ ∃ id, (r.get id).name = name := by
  rw [names, List.mem_map]
  constructor
  · rintro ⟨f, hf, rfl⟩
    obtain ⟨i, hi, rfl⟩ := List.mem_iff_getElem.mp hf
    exact ⟨⟨i, hi⟩, rfl⟩
  · exact fun ⟨id, hid⟩ => ⟨r.get id, r.get_mem id, hid⟩

theorem mem_of_find? {r : Registry} {name : String} {f : Fragment} (h : r.find? name = some f) :
    f ∈ r.fragments := by
  obtain ⟨id, -, rfl⟩ := Option.map_eq_some_iff.mp h
  exact r.get_mem id

theorem WellFormed.contains_iff {r : Registry} (h : r.WellFormed) {name : String} :
    r.contains name = true ↔ name ∈ r.names := by
  simp [contains, Option.isSome_iff_exists, h.index_eq, List.mem_iff_getElem?]

theorem WellFormed.id?_eq_some_iff {r : Registry} (h : r.WellFormed) {name : String} {id : r.Id} :
    r.id? name = some id ↔ (r.get id).name = name := by
  have hget : r.names[id.val]? = some (r.get id).name := by simp [names, get]
  constructor
  · intro hid
    obtain ⟨i, hi, hlt⟩ := Option.bind_eq_some_iff.mp hid
    split at hlt
    · cases hlt
      have := (h.index_eq name i).mp hi
      simpa [this] using hget.symm
    · cases hlt
  · rintro rfl
    simp [id?, (h.index_eq _ _).mpr hget]

theorem WellFormed.id?_eq_none_iff {r : Registry} (h : r.WellFormed) {name : String} :
    r.id? name = none ↔ name ∉ r.names := by
  rw [Option.eq_none_iff_forall_ne_some, mem_names_iff, not_exists]
  exact forall_congr' fun id => h.id?_eq_some_iff.not

theorem WellFormed.get_name_injective {r : Registry} (h : r.WellFormed) :
    Function.Injective fun id => (r.get id).name := by
  intro a b hab
  have ha := h.id?_eq_some_iff.mpr hab
  rw [h.id?_eq_some_iff.mpr rfl] at ha
  exact (Option.some.inj ha).symm

theorem WellFormed.find?_eq_some_iff {r : Registry} (h : r.WellFormed) {name : String}
    {f : Fragment} : r.find? name = some f ↔ f ∈ r.fragments ∧ f.name = name := by
  constructor
  · intro hf
    obtain ⟨id, hid, rfl⟩ := Option.map_eq_some_iff.mp hf
    exact ⟨r.get_mem id, h.id?_eq_some_iff.mp hid⟩
  · rintro ⟨hf, rfl⟩
    obtain ⟨i, hi, rfl⟩ := List.mem_iff_getElem.mp hf
    exact Option.map_eq_some_iff.mpr ⟨⟨i, hi⟩, h.id?_eq_some_iff.mpr rfl, rfl⟩

theorem WellFormed.find?_name {r : Registry} (h : r.WellFormed) {f : Fragment}
    (hf : f ∈ r.fragments) : r.find? f.name = some f := h.find?_eq_some_iff.mpr ⟨hf, rfl⟩

theorem WellFormed.edge_iff {r : Registry} (h : r.WellFormed) {a b : String} :
    r.graph.Edge a b ↔ ∃ f, r.find? a = some f ∧ b ∈ f.dependencies := by
  constructor
  · rintro ⟨names, hn, hb⟩
    obtain ⟨before, after, hsplit, -⟩ := List.lookup_eq_some_iff.mp hn
    have hmem : (a, names) ∈ r.graph := by simp [hsplit]
    obtain ⟨f, hf, he⟩ := List.mem_map.mp hmem
    cases he
    exact ⟨f, h.find?_name hf, hb⟩
  · rintro ⟨f, hf, hb⟩
    obtain ⟨hmem, rfl⟩ := h.find?_eq_some_iff.mp hf
    cases hn : r.graph.lookup f.name with
    | none => simp [graph] at hn; exact absurd rfl (hn f hmem)
    | some names =>
      obtain ⟨before, after, hsplit, -⟩ := List.lookup_eq_some_iff.mp hn
      have hmem' : (f.name, names) ∈ r.graph := by simp [hsplit]
      obtain ⟨g, hg, he⟩ := List.mem_map.mp hmem'
      obtain ⟨hname, rfl⟩ := Prod.mk.inj he
      have := h.find?_name hg
      rw [hname, hf] at this
      cases this
      exact ⟨_, hn, hb⟩

theorem rank_pos {r : Registry} {f : Fragment} (hf : f ∈ r.fragments) :
    0 < r.graph.rank f.name := by
  apply DependencyGraph.rank_pos
  rw [keys_graph]
  exact List.mem_map_of_mem hf

theorem rank_le_size (r : Registry) (name : String) : r.graph.rank name ≤ r.size := by
  simpa using r.graph.rank_le name

theorem WellFormed.rank_lt {r : Registry} (h : r.WellFormed) {f g : Fragment} {d : String}
    (hf : f ∈ r.fragments) (hd : d ∈ f.dependencies) (hg : r.find? d = some g) :
    r.graph.rank g.name < r.graph.rank f.name := by
  obtain ⟨-, rfl⟩ := h.find?_eq_some_iff.mp hg
  exact h.acyclic.rank_lt (h.edge_iff.mpr ⟨f, h.find?_name hf, hd⟩)

@[elab_as_elim]
theorem WellFormed.induction {r : Registry} (h : r.WellFormed) {P : Fragment → Prop}
    (hP : ∀ f ∈ r.fragments, (∀ d ∈ f.dependencies, ∀ g, r.find? d = some g → P g) → P f)
    {f : Fragment} (hf : f ∈ r.fragments) : P f := by
  induction hn : r.graph.rank f.name using Nat.strongRecOn generalizing f with
  | ind n ih =>
    refine hP f hf fun d hd g hg => ?_
    exact ih _ (hn ▸ h.rank_lt hf hd hg) (mem_of_find? hg) rfl

structure Admits (r : Registry) (f : Fragment) : Prop where
  name_valid : isFragmentName f.name = true
  name_new : r.contains f.name = false
  dependencies_valid : ∀ d ∈ f.dependencies, isFragmentName d = true
  acyclic : Acyclic ((f.name, f.dependencies) :: r.graph)

theorem enter_of_admits {r : Registry} {f : Fragment} (h : r.Admits f) :
    r.enter f = (.ok r.size, r.add f) := by
  have hdeps : (f.dependencies.find? fun d => !isFragmentName d) = none := by
    simpa using h.dependencies_valid
  simp [enter, h.name_valid, h.name_new, hdeps, cycle?_eq_none_iff.mpr h.acyclic]

theorem enter_cases (r : Registry) (f : Fragment) :
    r.Admits f ∨ ∃ e, r.enter f = (.error e, r) := by
  unfold enter
  split
  · exact .inr ⟨_, rfl⟩
  split
  · exact .inr ⟨_, rfl⟩
  split
  · exact .inr ⟨_, rfl⟩
  split
  · exact .inr ⟨_, rfl⟩
  · next hname hnew _ hdeps _ hcycle =>
    refine .inl ⟨by simpa using hname, by simpa using hnew, ?_, cycle?_eq_none_iff.mp hcycle⟩
    simpa using hdeps

theorem getElem?_concat_eq_some_iff {α : Type} {as : List α} {a b : α} {i : Nat} :
    (as ++ [a])[i]? = some b ↔ as[i]? = some b ∨ i = as.length ∧ a = b := by
  obtain hi | rfl | hi := lt_trichotomy i as.length
  · simp [List.getElem?_append_left hi, hi.ne]
  · simp
  · have hnone : (as ++ [a])[i]? = none := List.getElem?_eq_none (by rw [List.length_append]; exact hi)
    simp [hnone, hi.le, hi.ne']

theorem WellFormed.add {r : Registry} (h : r.WellFormed) {f : Fragment} (hf : r.Admits f) :
    (r.add f).WellFormed := by
  have hnew : f.name ∉ r.names := by simpa [← h.contains_iff] using hf.name_new
  refine ⟨?_, ?_, ?_, ?_, ?_⟩
  · simpa [List.nodup_append, h.names_nodup] using fun name hn => ne_of_mem_of_not_mem hn hnew
  · intro name hname
    rw [names_add, List.mem_append, List.mem_singleton] at hname
    obtain hname | rfl := hname
    · exact h.names_valid name hname
    · exact hf.name_valid
  · intro g hg
    obtain hg | rfl : g ∈ r.fragments ∨ g = f := by simpa [Registry.add] using hg
    · exact h.dependencies_valid g hg
    · exact hf.dependencies_valid
  · intro name i
    have hindex : (r.add f).index = (f.name, r.size) :: r.index := rfl
    rw [hindex, names_add, List.lookup_cons, getElem?_concat_eq_some_iff]
    by_cases hname : name = f.name
    · subst hname
      have hne : r.names[i]? ≠ some f.name := fun he => hnew (List.mem_of_getElem? he)
      simp [hne, eq_comm]
    · simpa [beq_false_of_ne hname, Ne.symm hname] using h.index_eq name i
  · refine hf.acyclic.mono ?_
    rintro a b ⟨names, hn, hb⟩
    refine ⟨names, ?_, hb⟩
    rw [graph_add, List.lookup_append] at hn
    by_cases ha : a = f.name
    · subst ha
      rw [← keys_graph, mem_keys_iff, not_not] at hnew
      simpa [hnew] using hn
    · simpa [List.lookup_cons, beq_false_of_ne ha] using hn

/-- The registry after some fragments were entered in turn, whether it took them or not. -/
def entered (fs : List Fragment) : Registry := fs.foldl (fun r f => (r.enter f).2) {}

theorem WellFormed.enter {r : Registry} (h : r.WellFormed) (f : Fragment) :
    (r.enter f).2.WellFormed := by
  obtain hf | ⟨e, he⟩ := r.enter_cases f
  · rw [enter_of_admits hf]
    exact h.add hf
  · rw [he]
    exact h

theorem wellFormed_entered (fs : List Fragment) : (entered fs).WellFormed :=
  List.foldlRecOn fs _ wellFormed_empty fun _ hr f _ => hr.enter f

/-- However many fragments were entered, and whether or not all of them were taken: names are valid
and all different, the index has each name with its place and no others, no fragment depends on
itself through others, and a fragment that is not taken changes nothing. -/
theorem entered_invariant (fs : List Fragment) :
    (entered fs).WellFormed ∧
      ∀ f e r, (entered fs).enter f = (.error e, r) → r = entered fs := by
  refine ⟨wellFormed_entered fs, fun f e r he => ?_⟩
  obtain hf | ⟨e', he'⟩ := (entered fs).enter_cases f
  · rw [enter_of_admits hf] at he
    cases he
  · rw [he'] at he
    exact (Prod.mk.inj he).2.symm

theorem entered_invariant_of_cycle :
    let card : Fragment := { name := "card", dependencies := ["badge"], body := .native [] }
    let badge : Fragment := { name := "badge", dependencies := ["card"], body := .native [] }
    (entered [card]).enter badge = (.error (.cycle ["badge", "card", "badge"]), entered [card]) ∧
      entered [card] = entered [card, badge] := by
  intro card badge
  have he : (entered [card]).enter badge =
      (.error (.cycle ["badge", "card", "badge"]), entered [card, badge]) := by
    simp only [card, badge]
    rfl
  have hr := (entered_invariant [card]).2 badge _ _ he
  exact ⟨hr ▸ he, hr.symm⟩

theorem register_of_admits {r : Registry} {f : Fragment} (h : r.Admits f) :
    r.register f = .ok (r.add f) := by
  rw [register, enter_of_admits h]

theorem WellFormed.register {r r' : Registry} (h : r.WellFormed) {f : Fragment}
    (hr : r.register f = .ok r') : r'.WellFormed ∧ r'.fragments = r.fragments ++ [f] := by
  obtain hf | ⟨e, he⟩ := r.enter_cases f
  · rw [register_of_admits hf] at hr
    cases hr
    exact ⟨h.add hf, rfl⟩
  · rw [Registry.register, he] at hr
    cases hr

theorem WellFormed.registerAll {r r' : Registry} (h : r.WellFormed) {fs : List Fragment}
    (hr : fs.foldlM Registry.register r = .ok r') :
    r'.WellFormed ∧ r'.fragments = r.fragments ++ fs := by
  induction fs generalizing r with
  | nil =>
    cases hr
    exact ⟨h, by simp⟩
  | cons f fs ih =>
    rw [List.foldlM_cons] at hr
    cases hf : r.register f with
    | error e => simp [hf, bind, Except.bind] at hr
    | ok r₁ =>
      obtain ⟨hwf, hfs⟩ := h.register hf
      obtain ⟨hwf', hfs'⟩ := ih hwf (by simpa [hf, bind, Except.bind] using hr)
      exact ⟨hwf', by simp [hfs', hfs]⟩

theorem WellFormed.admits_of_perm {r part : Registry} (h : r.WellFormed) (hpart : part.WellFormed)
    {f : Fragment} {rest : List Fragment} (hp : (part.fragments ++ f :: rest).Perm r.fragments) :
    part.Admits f := by
  have hmem : ∀ g ∈ part.fragments ++ [f], g ∈ r.fragments := by
    intro g hg
    apply hp.subset
    rw [List.mem_append, List.mem_singleton] at hg
    rw [List.mem_append, List.mem_cons]
    exact hg.imp_right .inl
  have hf := hmem f (by simp)
  have hnames : (part.names ++ f.name :: rest.map Fragment.name).Nodup := by
    have hn := (hp.map Fragment.name).nodup_iff.mpr h.names_nodup
    rwa [List.map_append, List.map_cons] at hn
  have hnew : f.name ∉ part.names := by
    intro hmem
    exact (List.nodup_append.mp hnames).2.2 _ hmem f.name (by simp) rfl
  refine ⟨h.names_valid f.name (List.mem_map_of_mem hf), ?_, h.dependencies_valid f hf, ?_⟩
  · simpa [← hpart.contains_iff] using hnew
  · refine h.acyclic.mono ?_
    rintro a b ⟨names, hn, hb⟩
    rw [h.edge_iff]
    obtain ⟨before, after, hsplit, -⟩ := List.lookup_eq_some_iff.mp hn
    have hmem' : (a, names) ∈ (f.name, f.dependencies) :: part.graph := by simp [hsplit]
    obtain ⟨g, hg, he⟩ : ∃ g ∈ part.fragments ++ [f], (g.name, g.dependencies) = (a, names) := by
      rw [List.mem_cons] at hmem'
      obtain he | hg := hmem'
      · exact ⟨f, by simp, he.symm⟩
      · obtain ⟨g, hg, he⟩ := List.mem_map.mp hg
        exact ⟨g, by simp [hg], he⟩
    cases he
    exact ⟨g, h.find?_name (hmem g hg), hb⟩

theorem WellFormed.registerAll_of_perm {r part : Registry} (h : r.WellFormed)
    (hpart : part.WellFormed) {fs : List Fragment} (hp : (part.fragments ++ fs).Perm r.fragments) :
    ∃ r', fs.foldlM Registry.register part = .ok r' := by
  induction fs generalizing part with
  | nil => exact ⟨part, rfl⟩
  | cons f fs ih =>
    have hf := h.admits_of_perm hpart hp
    rw [List.foldlM_cons, register_of_admits hf]
    exact ih (hpart.add hf) (by simpa [Registry.add] using hp)

theorem WellFormed.find?_eq_of_perm {r r' : Registry} (h : r.WellFormed) (h' : r'.WellFormed)
    (hp : r'.fragments.Perm r.fragments) (name : String) : r.find? name = r'.find? name := by
  apply Option.ext
  intro f
  rw [h.find?_eq_some_iff, h'.find?_eq_some_iff, hp.mem_iff]

end StaticSite.Registry
