import StaticSite.Proofs.Registry.Order

namespace StaticSite.Registry

open DependencyGraph Relation

/-- Names are gone through in their order, and from a name that leads to a goal the way goes down to
what it depends on. This is the goal that is met first. -/
inductive FirstMet (r : Registry) (goals : List String) : List String → String → Prop
  | here : name ∈ goals → FirstMet r goals (name :: rest) name
  | down : name ∉ goals → r.find? name = some f → FirstMet r goals f.dependencies goal →
    FirstMet r goals (name :: rest) goal
  | past : (∀ g ∈ goals, ¬r.graph.Reaches name g) → FirstMet r goals rest goal →
    FirstMet r goals (name :: rest) goal

variable {r : Registry} {goals way names : List String} {w : Walk} {name goal : String}

namespace FirstMet

theorem mem_goals (h : r.FirstMet goals names goal) : goal ∈ goals := by
  induction h with
  | here hname => exact hname
  | down _ _ _ ih => exact ih
  | past _ _ ih => exact ih

theorem exists_reaches (hr : r.WellFormed) (h : r.FirstMet goals names goal) :
    ∃ name ∈ names, r.graph.Reaches name goal := by
  induction h with
  | here _ => exact ⟨_, List.mem_cons_self, .refl⟩
  | down _ hf _ ih =>
    obtain ⟨d, hd, hreach⟩ := ih
    exact ⟨_, List.mem_cons_self, .head (hr.edge_iff.mpr ⟨_, hf, hd⟩) hreach⟩
  | past _ _ ih =>
    obtain ⟨name, hname, hreach⟩ := ih
    exact ⟨name, List.mem_cons_of_mem _ hname, hreach⟩

theorem cases_above (hr : r.WellFormed) (h : r.FirstMet goals names goal) :
    ∃ before name after, names = before ++ name :: after ∧ (∀ g ∈ goals, g ∉ before) ∧
      (name = goal ∨ name ∉ goals ∧ ∃ (c : r.Id) (above below : List String),
        r.graph.Reaches name (r.get c).name ∧ (r.get c).dependencies = above ++ goal :: below ∧
          ∀ g ∈ goals, g ∉ above) := by
  induction h with
  | @here name names hname => exact ⟨[], name, names, rfl, by simp, .inl rfl⟩
  | @down name f goal names hname hf _ ih =>
    refine ⟨[], name, names, rfl, by simp, .inr ⟨hname, ?_⟩⟩
    obtain ⟨hmem, rfl⟩ := hr.find?_eq_some_iff.mp hf
    obtain ⟨c, rfl⟩ := List.get_of_mem hmem
    obtain ⟨above, d, below, hsplit, habove, rfl | ⟨-, c', above', below', hreach, hc', habove'⟩⟩ := ih
    · exact ⟨c, above, below, .refl, hsplit, habove⟩
    · have hd : d ∈ (r.fragments.get c).dependencies := by
        rw [hsplit]
        exact List.mem_append_right _ List.mem_cons_self
      exact ⟨c', above', below', .head (hr.edge_iff.mpr ⟨_, hf, hd⟩) hreach, hc', habove'⟩
  | @past name names goal hname _ ih =>
    obtain ⟨before, name', after, rfl, hbefore, hcases⟩ := ih
    refine ⟨name :: before, name', after, rfl, fun g hg => ?_, hcases⟩
    refine List.not_mem_cons_of_ne_of_not_mem ?_ (hbefore g hg)
    rintro rfl
    exact hname g hg .refl

end FirstMet

theorem exists_firstMet_of (hr : r.WellFormed)
    (hbelow : ∀ name ∈ names, ∀ f, r.find? name = some f →
      (∃ d ∈ f.dependencies, ∃ goal ∈ goals, r.graph.Reaches d goal) →
        ∃ goal, r.FirstMet goals f.dependencies goal)
    (h : ∃ name ∈ names, ∃ goal ∈ goals, r.graph.Reaches name goal) :
    ∃ goal, r.FirstMet goals names goal := by
  induction names with
  | nil => simp at h
  | cons name names ih =>
    obtain ⟨hname, hnames⟩ := List.forall_mem_cons.mp hbelow
    by_cases hmem : name ∈ goals
    · exact ⟨name, .here hmem⟩
    by_cases hreach : ∃ goal ∈ goals, r.graph.Reaches name goal
    · obtain ⟨goal, hgoal, hreach⟩ := hreach
      obtain rfl | ⟨d, hd, hreach⟩ := hreach.cases_head
      · exact absurd hgoal hmem
      · obtain ⟨f, hf, hd⟩ := hr.edge_iff.mp hd
        obtain ⟨first, hfirst⟩ := hname f hf ⟨d, hd, goal, hgoal, hreach⟩
        exact ⟨first, .down hmem hf hfirst⟩
    · have hpast : ∀ goal ∈ goals, ¬r.graph.Reaches name goal :=
        fun goal hgoal hname => hreach ⟨goal, hgoal, hname⟩
      obtain ⟨name', hname', hlead⟩ := h
      obtain rfl | hname' := List.mem_cons.mp hname'
      · exact absurd hlead hreach
      · obtain ⟨first, hfirst⟩ := ih hnames ⟨name', hname', hlead⟩
        exact ⟨first, .past hpast hfirst⟩

theorem WellFormed.exists_firstMet (hr : r.WellFormed)
    (h : ∃ name ∈ names, ∃ goal ∈ goals, r.graph.Reaches name goal) :
    ∃ goal, r.FirstMet goals names goal := by
  refine exists_firstMet_of hr (fun name _ f hf => ?_) h
  refine hr.induction (fun f _ ih => ?_) (mem_of_find? hf)
  exact exists_firstMet_of hr fun d hd g hg => ih d hd g hg

def Adds (r : Registry) (names : List String) (w w' : Walk) : Prop :=
  ∃ more, w'.order = w.order ++ more ∧ ∀ a ∈ more, ∃ name ∈ names, r.graph.Reaches name a

theorem adds_self (r : Registry) (names : List String) (w : Walk) : r.Adds names w w :=
  ⟨[], by simp, by simp⟩

theorem adds_foldl {step : Walk → String → Walk} (hstep : ∀ w name, r.Adds [name] w (step w name))
    (names : List String) (w : Walk) : r.Adds names w (names.foldl step w) := by
  induction names generalizing w with
  | nil => exact adds_self r [] w
  | cons name names ih =>
    obtain ⟨first, hfirst, hfirstReach⟩ := hstep w name
    obtain ⟨rest, hrest, hrestReach⟩ := ih (step w name)
    refine ⟨first ++ rest, by rw [List.foldl_cons, hrest, hfirst, List.append_assoc], ?_⟩
    intro a ha
    obtain ha | ha := List.mem_append.mp ha
    · obtain ⟨name', hname', hreach⟩ := hfirstReach a ha
      exact ⟨name, List.mem_cons_self, List.mem_singleton.mp hname' ▸ hreach⟩
    · obtain ⟨name', hname', hreach⟩ := hrestReach a ha
      exact ⟨name', List.mem_cons_of_mem _ hname', hreach⟩

theorem visit_of_new {fuel : Nat} {f : Fragment} (hname : name ∉ w.seen)
    (hf : r.find? name = some f) :
    (r.visit (fuel + 1) w name).order =
      (f.dependencies.foldl (r.visit fuel) { w with seen := name :: w.seen }).order ++ [name] := by
  simp [visit, hname, hf]

theorem WellFormed.visit_adds (hr : r.WellFormed) (fuel : Nat) (w : Walk) (name : String) :
    r.Adds [name] w (r.visit fuel w name) := by
  induction fuel generalizing w name with
  | zero => exact adds_self r [name] w
  | succ fuel ih =>
    by_cases hname : name ∈ w.seen
    · rw [visit, if_pos (List.contains_iff_mem.mpr hname)]
      exact adds_self r [name] w
    · cases hf : r.find? name with
      | none =>
        have hself : r.visit (fuel + 1) w name = w := by simp [visit, hname, hf]
        rw [hself]
        exact adds_self r [name] w
      | some f =>
        obtain ⟨more, hmore, hreach⟩ := adds_foldl ih f.dependencies { w with seen := name :: w.seen }
        refine ⟨more ++ [name], by rw [visit_of_new hname hf, hmore, List.append_assoc], ?_⟩
        intro a ha
        refine ⟨name, List.mem_cons_self, ?_⟩
        obtain ha | ha := List.mem_append.mp ha
        · obtain ⟨d, hd, hda⟩ := hreach a ha
          exact .head (hr.edge_iff.mpr ⟨f, hf, hd⟩) hda
        · rw [List.mem_singleton.mp ha]
          exact .refl

theorem WellFormed.foldl_visit_of_new (hr : r.WellFormed) {fuel : Nat} {f : Fragment}
    (hname : name ∉ w.seen) (hf : r.find? name = some f) (names : List String) :
    ∃ rest, ((name :: names).foldl (r.visit (fuel + 1)) w).order =
      (f.dependencies.foldl (r.visit fuel) { w with seen := name :: w.seen }).order ++
        name :: rest := by
  obtain ⟨rest, hrest, -⟩ := adds_foldl (hr.visit_adds (fuel + 1)) names (r.visit (fuel + 1) w name)
  refine ⟨rest, ?_⟩
  rw [List.foldl_cons, hrest, visit_of_new hname hf, List.append_assoc, List.singleton_append]

theorem Ordered.notMem_seen (hw : r.Ordered way w) (hr : r.WellFormed)
    (hway : ∀ p ∈ way, TransGen r.graph.Edge p name) (hname : name ∉ w.order) : name ∉ w.seen := by
  rw [hw.seen_iff, not_or]
  exact ⟨hname, fun hmem => hr.acyclic name (hway name hmem)⟩

theorem Ordered.notMem_of_transGen (hw : r.Ordered way w) (hgoal : goal ∈ r.names)
    (hnew : goal ∉ w.order) (hlead : TransGen r.graph.Edge name goal) : name ∉ w.order := by
  intro hname
  have hknown : r.graph.Known w.order.reverse name := .inl (List.mem_reverse.mpr hname)
  obtain hmem | hnone := hw.settled.known_of_transGen hknown hlead
  · exact hnew (List.mem_reverse.mp hmem)
  · exact mem_keys_iff.mp (keys_graph r ▸ hgoal) hnone

theorem FirstMet.foldl_visit (hr : r.WellFormed)
    (hapart : ∀ g ∈ goals, ∀ g' ∈ goals, ¬TransGen r.graph.Edge g g')
    (hgoals : ∀ g ∈ goals, g ∈ r.names) (h : r.FirstMet goals names goal) {fuel : Nat}
    (hfuel : ∀ name ∈ names, r.graph.rank name < fuel)
    (hway : ∀ name ∈ names, ∀ p ∈ way, TransGen r.graph.Edge p name) (hw : r.Ordered way w)
    (hnew : ∀ g ∈ goals, g ∉ w.order) :
    ∃ before after, (names.foldl (r.visit fuel) w).order = before ++ goal :: after ∧
      ∀ g ∈ goals, g ∉ before := by
  induction h generalizing fuel way w with
  | @here name names hname =>
    obtain ⟨hfuel, -⟩ := List.forall_mem_cons.mp hfuel
    obtain ⟨hway, -⟩ := List.forall_mem_cons.mp hway
    obtain ⟨fuel, rfl⟩ := Nat.exists_eq_succ_of_ne_zero (Nat.ne_zero_of_lt hfuel)
    obtain ⟨id, rfl⟩ := mem_names_iff.mp (hgoals name hname)
    have hf := hr.find?_name (r.get_mem id)
    have hseen := hw.notMem_seen hr hway (hnew _ hname)
    obtain ⟨rest, hrest⟩ := hr.foldl_visit_of_new hseen hf names
    obtain ⟨more, hmore, hreach⟩ := adds_foldl (hr.visit_adds fuel) (r.get id).dependencies
      { w with seen := (r.get id).name :: w.seen }
    refine ⟨w.order ++ more, rest, hrest.trans (by rw [hmore]), fun g hg => ?_⟩
    refine List.not_mem_append (hnew g hg) fun hmem => ?_
    obtain ⟨d, hd, hdg⟩ := hreach g hmem
    exact hapart _ hname g hg (.head' (hr.edge_iff.mpr ⟨_, hf, hd⟩) hdg)
  | @down name f goal names hname hf hfirst ih =>
    obtain ⟨hfuel, -⟩ := List.forall_mem_cons.mp hfuel
    obtain ⟨hway, -⟩ := List.forall_mem_cons.mp hway
    obtain ⟨fuel, rfl⟩ := Nat.exists_eq_succ_of_ne_zero (Nat.ne_zero_of_lt hfuel)
    have hedge : ∀ d ∈ f.dependencies, r.graph.Edge name d :=
      fun d hd => hr.edge_iff.mpr ⟨f, hf, hd⟩
    obtain ⟨d, hd, hlead⟩ := hfirst.exists_reaches hr
    have horder : name ∉ w.order := hw.notMem_of_transGen (hgoals goal hfirst.mem_goals)
      (hnew goal hfirst.mem_goals) (.head' (hedge d hd) hlead)
    have hseen := hw.notMem_seen hr hway horder
    -- Names that the name depends on reach fewer others than it does, so the rest of `fuel` lasts.
    have hfuels : ∀ d ∈ f.dependencies, r.graph.rank d < fuel := fun d hd =>
      Nat.lt_of_lt_of_le (hr.acyclic.rank_lt (hedge d hd)) (Nat.le_of_lt_succ hfuel)
    have hways : ∀ d ∈ f.dependencies, ∀ p ∈ name :: way, TransGen r.graph.Edge p d := fun d hd =>
      List.forall_mem_cons.mpr ⟨.single (hedge d hd), fun p hp => (hway p hp).tail (hedge d hd)⟩
    obtain ⟨before, after, hbelow, hbefore⟩ := ih hfuels hways (hw.enter hseen) hnew
    obtain ⟨rest, hrest⟩ := hr.foldl_visit_of_new hseen hf names
    refine ⟨before, after ++ name :: rest, ?_, hbefore⟩
    rw [hrest, hbelow, List.append_assoc, List.cons_append]
  | @past name names goal hpast _ ih =>
    obtain ⟨hfuel, hfuels⟩ := List.forall_mem_cons.mp hfuel
    obtain ⟨hway, hways⟩ := List.forall_mem_cons.mp hway
    have hordered := (hr.visit_brings hfuel hway hw).ordered
    refine ih hfuels hways hordered fun g hg => ?_
    obtain ⟨more, hmore, hreach⟩ := hr.visit_adds fuel w name
    have hg' : g ∉ more := by
      intro hmem
      obtain ⟨_, hname, hlead⟩ := hreach g hmem
      exact hpast g hg (List.mem_singleton.mp hname ▸ hlead)
    rw [hmore]
    exact List.not_mem_append (hnew g hg) hg'

theorem idxOf_lt_of_split {before after : List String} {x y : String} (hx : x ∉ before)
    (hy : y ∉ before) (hxy : x ≠ y) :
    (before ++ x :: after).idxOf x < (before ++ x :: after).idxOf y := by
  rw [List.idxOf_append_of_notMem hx, List.idxOf_append_of_notMem hy, List.idxOf_cons_self,
    List.idxOf_cons_ne _ hxy]
  omega

theorem FirstMet.idxOf_lt (hr : r.WellFormed)
    (hapart : ∀ g ∈ goals, ∀ g' ∈ goals, ¬TransGen r.graph.Edge g g')
    (hgoals : ∀ g ∈ goals, g ∈ r.names) (h : r.FirstMet goals r.names goal) {other : String}
    (hother : other ∈ goals) (hne : goal ≠ other) :
    r.renderOrder.idxOf goal < r.renderOrder.idxOf other := by
  obtain ⟨before, after, horder, hbefore⟩ :=
    h.foldl_visit hr hapart hgoals (fun name _ => Nat.lt_succ_of_le (r.rank_le_size name))
      (by simp) ordered_empty (by simp)
  rw [renderOrder, horder]
  exact idxOf_lt_of_split (hbefore _ h.mem_goals) (hbefore _ hother) hne

/-- Two fragments whose order is left open by what depends on what: no way leads from one to the
other, and they have the same dependencies that are there, and the same dependents. -/
structure Tied (r : Registry) (a b : r.Id) : Prop where
  apart : ¬r.graph.Reaches (r.get a).name (r.get b).name ∧
    ¬r.graph.Reaches (r.get b).name (r.get a).name
  dependencies : ∀ d : r.Id,
    (r.get d).name ∈ (r.get a).dependencies ↔ (r.get d).name ∈ (r.get b).dependencies
  dependents : ∀ c : r.Id,
    (r.get a).name ∈ (r.get c).dependencies ↔ (r.get b).name ∈ (r.get c).dependencies

theorem names_getElem? (id : r.Id) : r.names[id.val]? = some (r.get id).name := by
  simp [names, get]

theorem exists_id_of_names_eq {before after : List String} (h : r.names = before ++ name :: after) :
    ∃ e : r.Id, (r.get e).name = name ∧ ∀ id : r.Id, (r.get id).name ∉ before → e ≤ id := by
  have hlt : before.length < r.fragments.length := by
    have hlength : r.names.length = r.fragments.length := r.length_names
    rw [← hlength, h, List.length_append, List.length_cons]
    omega
  refine ⟨⟨before.length, hlt⟩, ?_, fun id hid => ?_⟩
  · have hname := names_getElem? ⟨before.length, hlt⟩
    simp only [h, List.getElem?_append_right (Nat.le_refl _), Nat.sub_self] at hname
    exact (Option.some.inj hname).symm
  · refine Nat.le_of_not_lt fun hbefore => hid ?_
    have hname := names_getElem? id
    rw [h, List.getElem?_append_left hbefore] at hname
    exact List.mem_of_getElem? hname

theorem WellFormed.not_reaches_of_dependents (hr : r.WellFormed) {a b : r.Id} (hne : a ≠ b)
    (h : ∀ c : r.Id, (r.get b).name ∈ (r.get c).dependencies →
      (r.get a).name ∈ (r.get c).dependencies) :
    ¬r.graph.Reaches (r.get a).name (r.get b).name := by
  intro hreach
  obtain heq | ⟨c, hac, hcb⟩ := hreach.cases_tail
  · exact hne (hr.get_name_injective heq.symm)
  · obtain ⟨f, hf, hb⟩ := hr.edge_iff.mp hcb
    obtain ⟨hmem, -⟩ := hr.find?_eq_some_iff.mp hf
    obtain ⟨id, rfl⟩ := List.get_of_mem hmem
    exact hr.acyclic _ (.tail' hac (hr.edge_iff.mpr ⟨_, hf, h id hb⟩))

theorem WellFormed.tied (hr : r.WellFormed) {a b : r.Id} (hne : a ≠ b)
    (hdependencies : ∀ d : r.Id,
      (r.get d).name ∈ (r.get a).dependencies ↔ (r.get d).name ∈ (r.get b).dependencies)
    (hdependents : ∀ c : r.Id,
      (r.get a).name ∈ (r.get c).dependencies ↔ (r.get b).name ∈ (r.get c).dependencies) :
    r.Tied a b where
  apart := ⟨hr.not_reaches_of_dependents hne fun c => (hdependents c).mpr,
    hr.not_reaches_of_dependents hne.symm fun c => (hdependents c).mp⟩
  dependencies := hdependencies
  dependents := hdependents

theorem WellFormed.firstMet_or (hr : r.WellFormed) (a b : r.Id) :
    r.FirstMet [(r.get a).name, (r.get b).name] r.names (r.get a).name ∨
      r.FirstMet [(r.get a).name, (r.get b).name] r.names (r.get b).name := by
  have hlead : ∃ name ∈ r.names, ∃ goal ∈ [(r.get a).name, (r.get b).name],
      r.graph.Reaches name goal := ⟨_, mem_names_iff.mpr ⟨a, rfl⟩, _, List.mem_cons_self, .refl⟩
  obtain ⟨goal, hgoal⟩ := hr.exists_firstMet hlead
  obtain rfl | rfl : goal = (r.get a).name ∨ goal = (r.get b).name := by simpa using hgoal.mem_goals
  · exact .inl hgoal
  · exact .inr hgoal

namespace Tied

variable {a b : r.Id}

theorem name_ne (h : r.Tied a b) : (r.get a).name ≠ (r.get b).name :=
  fun heq => h.apart.1 (heq ▸ .refl)

theorem idxOf_lt_iff (h : r.Tied a b) (hr : r.WellFormed) :
    r.renderOrder.idxOf (r.get a).name < r.renderOrder.idxOf (r.get b).name ↔
      r.FirstMet [(r.get a).name, (r.get b).name] r.names (r.get a).name := by
  have hgoals : ∀ g ∈ [(r.get a).name, (r.get b).name], g ∈ r.names := by simp [mem_names_iff]
  have hapart : ∀ g ∈ [(r.get a).name, (r.get b).name], ∀ g' ∈ [(r.get a).name, (r.get b).name],
      ¬TransGen r.graph.Edge g g' := by
    have hab := mt TransGen.to_reflTransGen h.apart.1
    have hba := mt TransGen.to_reflTransGen h.apart.2
    simpa [hr.acyclic _] using ⟨hab, hba⟩
  refine ⟨fun hlt => ?_, fun hfirst => hfirst.idxOf_lt hr hapart hgoals (by simp) h.name_ne⟩
  refine (hr.firstMet_or a b).resolve_right fun hsecond => ?_
  exact Nat.lt_asymm hlt (hsecond.idxOf_lt hr hapart hgoals (by simp) h.name_ne.symm)

theorem firstMet_of_lt (h : r.Tied a b) (hr : r.WellFormed) (hab : a < b)
    (hlists : ∀ c : r.Id, (r.get b).name ∈ (r.get c).dependencies →
      (r.get c).dependencies.idxOf (r.get a).name < (r.get c).dependencies.idxOf (r.get b).name ∨
        ∀ e < a, ¬r.graph.Reaches (r.get e).name (r.get c).name) :
    r.FirstMet [(r.get a).name, (r.get b).name] r.names (r.get a).name := by
  refine (hr.firstMet_or a b).resolve_right fun hsecond => ?_
  obtain ⟨before, name, after, hnames, hbefore, hcases⟩ := hsecond.cases_above hr
  obtain ⟨e, rfl, hfirst⟩ := exists_id_of_names_eq hnames
  have hea : e ≤ a := hfirst a (hbefore _ (by simp))
  obtain heb | ⟨hgoals, c, above, below, hreach, hc, habove⟩ := hcases
  · exact Nat.not_le_of_gt hab (hr.get_name_injective heb ▸ hea)
  · have hne : e ≠ a := by
      rintro rfl
      exact hgoals List.mem_cons_self
    obtain hlt | hnone := hlists c (by simp [hc])
    · rw [hc] at hlt
      exact Nat.lt_asymm hlt
        (idxOf_lt_of_split (habove _ (by simp)) (habove _ (by simp)) h.name_ne.symm)
    · exact hnone e (Nat.lt_of_le_of_ne hea (Fin.val_ne_of_ne hne)) hreach

end Tied

/-- Of two fragments on a tie, the one that was registered first comes first if and only if it is met
first on the way down from all fragments in the order of registration. So it is unless a fragment
that depends on both lists the other before it and is needed by one that was registered before. -/
theorem renderOrder_tie_iff (fs : List Fragment) {a b : (entered fs).Id}
    (h : (entered fs).Tied a b) (hab : a < b) :
    let r := entered fs
    let first := (r.get a).name
    let second := (r.get b).name
    (r.renderOrder.idxOf first < r.renderOrder.idxOf second ↔
        r.FirstMet [first, second] r.names first) ∧
      ((∀ c : r.Id, second ∈ (r.get c).dependencies →
          (r.get c).dependencies.idxOf first < (r.get c).dependencies.idxOf second ∨
            ∀ e < a, ¬r.graph.Reaches (r.get e).name (r.get c).name) →
        r.renderOrder.idxOf first < r.renderOrder.idxOf second) := by
  intro r first second
  have hr := wellFormed_entered fs
  have hiff := h.idxOf_lt_iff hr
  exact ⟨hiff, fun hlists => hiff.mpr (h.firstMet_of_lt hr hab hlists)⟩

theorem renderOrder_tie_iff_nested :
    let page : Fragment := {
      name := "page", dependencies := ["grid", "list", "card"], body := .native [] }
    let card : Fragment := { name := "card", dependencies := ["gone"], body := .native [] }
    let list : Fragment := { name := "list", body := .native [] }
    let grid : Fragment := { name := "grid", dependencies := ["card", "list"], body := .native [] }
    let r := entered [page, card, list, grid]
    r.Tied ⟨1, by decide⟩ ⟨2, by decide⟩ ∧ r.renderOrder = ["card", "list", "grid", "page"] ∧
      r.FirstMet ["card", "list"] r.names "card" := by
  intro page card list grid r
  have htied : r.Tied ⟨1, by decide⟩ ⟨2, by decide⟩ :=
    (wellFormed_entered _).tied (by decide) (by decide) (by decide)
  have horder : r.renderOrder = ["card", "list", "grid", "page"] := by decide +kernel
  have hcard : (r.get ⟨1, by decide⟩).name = "card" := by decide +kernel
  have hlist : (r.get ⟨2, by decide⟩).name = "list" := by decide +kernel
  have hiff := (renderOrder_tie_iff _ htied (by decide)).1
  rw [hcard, hlist, horder] at hiff
  exact ⟨htied, horder, hiff.mp (by decide)⟩

/-- Two fragments on a tie come in the order in which a third one lists them, although they were
registered the other way round. -/
theorem renderOrder_breaks_tie :
    let page : Fragment := { name := "page", dependencies := ["list", "card"], body := .native [] }
    let card : Fragment := { name := "card", body := .native [] }
    let list : Fragment := { name := "list", body := .native [] }
    let r := entered [page, card, list]
    r.Tied ⟨1, by decide⟩ ⟨2, by decide⟩ ∧ (r.get ⟨1, by decide⟩).name = "card" ∧
      (r.get ⟨2, by decide⟩).name = "list" ∧ r.renderOrder = ["list", "card", "page"] := by
  intro page card list r
  have htied : r.Tied ⟨1, by decide⟩ ⟨2, by decide⟩ :=
    (wellFormed_entered _).tied (by decide) (by decide) (by decide)
  exact ⟨htied, by decide +kernel, by decide +kernel, by decide +kernel⟩

end StaticSite.Registry
