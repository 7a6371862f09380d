import StaticSite.Proofs.Path.Place

namespace StaticSite

namespace Component

/-- Puts a component on those before it. A step up takes a name away and does nothing at the root;
where there is neither, it stays. -/
def foldOnto (before : List Component) : Component → List Component
  | .here => before
  | .up =>
    match before.getLast? with
    | some (.name _) => before.dropLast
    | some .root => before
    | _ => before ++ [.up]
  | c => before ++ [c]

theorem foldOnto_up_name (before : List Component) (s : String) :
    foldOnto (before ++ [.name s]) .up = before := by simp [foldOnto]

theorem foldl_step_foldOnto (place : Place) (before : List Component) (c : Component) :
    (foldOnto before c).foldl Place.step place = (before.foldl Place.step place).step c := by
  cases c with
  | root => simp [foldOnto]
  | here => rfl
  | up =>
    cases before using List.reverseRecOn with
    | nil => rfl
    | append_singleton init last => cases last <;> simp [foldOnto, Place.step]
  | name s => simp [foldOnto]

theorem foldl_step_foldl_foldOnto (place : Place) (before cs : List Component) :
    (cs.foldl foldOnto before).foldl Place.step place =
      cs.foldl Place.step (before.foldl Place.step place) := by
  induction cs generalizing before with
  | nil => rfl
  | cons c cs ih => rw [List.foldl_cons, ih, foldl_step_foldOnto, List.foldl_cons]

theorem foldl_foldOnto_names (before : List Component) (names : List String) :
    (names.map name).foldl foldOnto before = before ++ names.map name := by
  induction names generalizing before with
  | nil => simp
  | cons n ns ih => simp [foldOnto, ih]

theorem foldl_foldOnto_replicate (before : List Component) (names : List String) :
    (List.replicate names.length up).foldl foldOnto (before ++ names.map name) = before := by
  induction names using List.reverseRecOn with
  | nil => simp
  | append_singleton init last ih =>
    rw [List.length_append, List.length_singleton, List.replicate_succ, List.foldl_cons,
      List.map_append, ← List.append_assoc, List.map_singleton, foldOnto_up_name, ih]

end Component

namespace Place

def components (place : Place) : List Component := .root :: place.map .name

theorem foldOnto_components (place : Place) {c : Component} (hc : c ≠ .root) :
    Component.foldOnto place.components c = (place.step c).components := by
  cases c with
  | root => exact absurd rfl hc
  | here => rfl
  | up =>
    cases place using List.reverseRecOn with
    | nil => rfl
    | append_singleton init last =>
      have hstack : components (init ++ [last]) = components init ++ [.name last] := by
        simp [components]
      rw [hstack, Component.foldOnto_up_name, step, List.dropLast_concat]
  | name s => simp [components, Component.foldOnto, step]

theorem ofSegment?_ne_root (s : String) : Component.ofSegment? s ≠ some .root := by
  unfold Component.ofSegment?
  split_ifs <;> simp

theorem foldl_foldOnto_components (place : Place) (segments : List String) :
    (segments.filterMap Component.ofSegment?).foldl Component.foldOnto place.components =
      (segments.foldl follow place).components := by
  induction segments generalizing place with
  | nil => rfl
  | cons s rest ih =>
    cases hs : Component.ofSegment? s with
    | none => simpa [hs, follow] using ih place
    | some c =>
      have hc : c ≠ .root := fun h => ofSegment?_ne_root s (h ▸ hs)
      simpa [hs, follow, foldOnto_components place hc] using ih (place.step c)

theorem forall_foldl_follow {segments : List String} {place : Place}
    (h : ∀ n ∈ place, Component.ofSegment? n = some (.name n)) :
    ∀ n ∈ segments.foldl follow place, Component.ofSegment? n = some (.name n) := by
  induction segments generalizing place with
  | nil => exact h
  | cons s rest ih =>
    refine ih ?_
    obtain heq | heq | ⟨hs, heq⟩ := place.follow_cases s
    · rwa [heq]
    · rw [heq]
      exact fun n hn => h n (List.dropLast_subset _ hn)
    · rw [heq]
      exact List.forall_mem_append.mpr ⟨h, by simpa using hs⟩

theorem components_path {place : Place}
    (h : ∀ n ∈ place, Component.ofSegment? n = some (.name n)) :
    (path place).components = components place := by
  change Component.root :: place.filterMap Component.ofSegment? = components place
  rw [List.filterMap_congr h, List.filterMap_eq_map']
  rfl

end Place

namespace Path

def folded (p : Path) : List Component := p.components.foldl Component.foldOnto []

theorem foldl_step_folded (p : Path) (place : Place) :
    p.folded.foldl Place.step place = p.components.foldl Place.step place :=
  Component.foldl_step_foldl_foldOnto place [] p.components

theorem foldl_foldOnto_components (p : Path) (before : List Component)
    (hp : p.isAbsolute = false) :
    p.components.foldl Component.foldOnto before =
      (p.segments.filterMap Component.ofSegment?).foldl Component.foldOnto before := by
  unfold Path.components
  rw [if_neg (by simp [hp])]
  split
  · next rest h => simp [h, Component.foldOnto, Component.ofSegment?]
  · rfl

theorem folded_eq (p : Path) :
    p.folded = (p.segments.filterMap Component.ofSegment?).foldl Component.foldOnto
      (if p.isAbsolute then [.root] else []) := by
  unfold folded
  split
  · next h =>
    unfold Path.components
    rw [if_pos h]
    rfl
  · next h => exact p.foldl_foldOnto_components [] (by simpa using h)

theorem folded_of_isAbsolute {p : Path} (h : p.isAbsolute = true) :
    p.folded = (p.segments.foldl Place.follow []).components := by
  rw [folded_eq, if_pos h]
  exact Place.foldl_foldOnto_components [] p.segments

theorem filterMap_openSegments (p : Path) :
    p.openSegments.filterMap Component.ofSegment? = p.segments.filterMap Component.ofSegment? := by
  unfold openSegments
  split
  · next h =>
    obtain ⟨init, hinit⟩ := List.getLast?_eq_some_iff.mp h
    rw [hinit, List.dropLast_concat, List.filterMap_append]
    simp [Component.ofSegment?]
  · rfl

theorem folded_join (p : Path) {q : Path} (hq : q.isAbsolute = false) :
    (p.join q).folded = q.components.foldl Component.foldOnto p.folded := by
  have hsegments : (p.join q).segments.filterMap Component.ofSegment? =
      p.segments.filterMap Component.ofSegment? ++ q.segments.filterMap Component.ofSegment? := by
    unfold join
    rw [if_neg (by simp [hq])]
    split
    · next hp => simp [List.isEmpty_iff.mp hp]
    · rw [List.filterMap_append, filterMap_openSegments]
      cases q.segments <;> simp [Component.ofSegment?]
  rw [folded_eq, hsegments, List.foldl_append, p.isAbsolute_join hq, ← folded_eq,
    q.foldl_foldOnto_components _ hq]

theorem foldl_join_absolute {w : Path} (hw : w.isAbsolute = true) (p : Path) :
    (w.join p).isAbsolute = true ∧ (w.join p).segments.foldl Place.follow [] =
      p.segments.foldl Place.follow (p.origin (w.segments.foldl Place.follow [])) := by
  cases hp : p.isAbsolute with
  | true =>
    rw [join_of_isAbsolute w hp, origin, if_pos hp]
    exact ⟨hp, rfl⟩
  | false =>
    rw [isAbsolute_join w hp, foldl_join w hp, origin, if_neg (by simp [hp])]
    exact ⟨hw, rfl⟩

theorem normalize?_of_isAbsolute {p : Path} (hp : p.isAbsolute = true) (cwd : Place) :
    p.normalize? cwd = some (p.segments.foldl Place.follow []) :=
  normalize?_eq_some_iff.mpr ⟨by simp [isEmpty, hp], by rw [origin, if_pos hp]⟩

theorem normalize?_join_of_folded {p q q' : Path} {cwd place : Place}
    (hp : p.normalize? cwd = some place) (hq : q.isAbsolute = false) (hq' : q'.isAbsolute = false)
    (h : q.folded = q'.folded) : (p.join q).normalize? cwd = (p.join q').normalize? cwd := by
  have hfollow : ∀ {r : Path}, r.isAbsolute = false →
      r.segments.foldl Place.follow place = r.folded.foldl Place.step place := by
    intro r hr
    rw [foldl_step_folded, foldl_components, origin, hr]
    rfl
  rw [normalize?_join hp hq, normalize?_join hp hq', hfollow hq, hfollow hq', h]

end Path

end StaticSite
