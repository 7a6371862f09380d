import Mathlib.Data.List.Nodup
import StaticSite.Proofs.Value.Throughout
import StaticSite.Value.Merge

namespace StaticSite

namespace Value

mutual

@[elab_as_elim]
theorem mapInduction {motive : Value → Prop} (other : ∀ v, (∀ ms, v ≠ .map ms) → motive v)
    (map : ∀ ms : List (String × Value), (∀ m ∈ ms, motive m.2) → motive (.map ms)) :
    (v : Value) → motive v
  | .null => other _ nofun
  | .bool _ => other _ nofun
  | .number _ => other _ nofun
  | .string _ => other _ nofun
  | .list _ => other _ nofun
  | .map ms => map ms (membersInduction other map ms)

theorem membersInduction {motive : Value → Prop} (other : ∀ v, (∀ ms, v ≠ .map ms) → motive v)
    (map : ∀ ms : List (String × Value), (∀ m ∈ ms, motive m.2) → motive (.map ms)) :
    (ms : List (String × Value)) → ∀ m ∈ ms, motive m.2
  | [] => nofun
  | (_, v) :: ms =>
    List.forall_mem_cons.mpr ⟨mapInduction other map v, membersInduction other map ms⟩

end

@[simp] theorem overlay_none (v : Value) : v.overlay none = v := by
  cases v <;> rfl

@[simp] theorem overlay_map_map (base upper : Props) :
    (Value.map base).overlay (some (.map upper)) = .map (Props.merge base upper) := rfl

theorem overlay_of_ne_map {v u : Value} (h : (∀ ms, v ≠ .map ms) ∨ ∀ ms, u ≠ .map ms) :
    v.overlay (some u) = u := by
  unfold overlay
  split
  · next base upper hu =>
    cases hu
    exact h.elim (fun hbase => absurd rfl (hbase base)) fun hupper => absurd rfl (hupper upper)
  · next hu => exact (Option.some.inj hu).symm
  · next hu => cases hu

theorem overlayMembers_eq (base upper : Props) :
    overlayMembers base upper = base.map fun m => (m.1, m.2.overlay (upper.get? m.1)) := by
  induction base with
  | nil => rfl
  | cons m base ih => rw [overlayMembers, ih, List.map_cons]

end Value

namespace Props

open Value

variable {d p : Props} {key : String}

theorem merge_eq (d p : Props) :
    merge d p = (d.map fun m => (m.1, m.2.overlay (p.get? m.1))) ++ beyond d p := by
  rw [merge, overlayMembers_eq]

theorem mem_of_get? {v : Value} (h : p.get? key = some v) : (key, v) ∈ p := by
  induction p with
  | nil => cases h
  | cons m p ih =>
    rw [get?] at h
    split at h
    · next hm =>
      cases h
      rw [← hm]
      exact List.mem_cons_self
    · exact List.mem_cons_of_mem _ (ih h)

theorem get?_of_mem (h : p.keys.Nodup) {m : String × Value} (hm : m ∈ p) :
    p.get? m.1 = some m.2 := by
  induction p with
  | nil => cases hm
  | cons n p ih =>
    obtain ⟨hnew, hnodup⟩ := List.nodup_cons.mp h
    rw [get?]
    obtain rfl | hm := List.mem_cons.mp hm
    · simp
    · have hne : n.1 ≠ m.1 := fun heq => hnew (heq ▸ List.mem_map_of_mem hm)
      rw [if_neg hne, ih hnodup hm]

theorem contains_iff_mem_keys : contains key p = true ↔ key ∈ keys p := by
  simp [contains, keys]

theorem get?_append (p q : Props) (key : String) :
    (p ++ q).get? key = (p.get? key).or (q.get? key) := by
  induction p with
  | nil => rfl
  | cons m p ih =>
    rw [List.cons_append, get?, get?, ih]
    split <;> rfl

theorem get?_map (f : String → Value → Value) (p : Props) (key : String) :
    get? key (p.map fun m => (m.1, f m.1 m.2)) = (p.get? key).map (f key) := by
  induction p with
  | nil => rfl
  | cons m p ih =>
    rw [List.map_cons, get?, get?, ih]
    split
    · next hm => simp [hm]
    · rfl

theorem get?_beyond (d p : Props) (key : String) :
    (beyond d p).get? key = if d.contains key then none else p.get? key := by
  induction p with
  | nil => simp [beyond]
  | cons m p ih =>
    rw [beyond, List.filter_cons]
    change get? key (if _ then m :: beyond d p else beyond d p) = _
    by_cases hm : m.1 = key
    · by_cases hkey : d.contains key = true <;> simp_all [get?]
    · by_cases hd : d.contains m.1 = true <;> simp_all [get?]

theorem get?_merge (d p : Props) (key : String) :
    (merge d p).get? key = ((d.get? key).map (·.overlay (p.get? key))).or (p.get? key) := by
  rw [merge_eq, get?_append, get?_map (fun k v => v.overlay (p.get? k)), get?_beyond,
    contains_eq_isSome]
  cases d.get? key <;> simp

theorem mem_beyond {m : String × Value} : m ∈ beyond d p ↔ m ∈ p ∧ m.1 ∉ keys d := by
  simp only [beyond, List.mem_filter, Bool.not_eq_true', ← Bool.not_eq_true, contains_iff_mem_keys]

theorem mem_merge {m : String × Value} (h : m ∈ merge d p) :
    (∃ x ∈ d, (x.1, x.2.overlay (p.get? x.1)) = m) ∨ m ∈ p := by
  rw [merge_eq, List.mem_append, List.mem_map, mem_beyond] at h
  exact h.imp_right And.left

theorem keys_merge (d p : Props) : keys (merge d p) = keys d ++ (keys p).filter (· ∉ keys d) := by
  have hnew : (fun m : String × Value => !d.contains m.1) =
      (fun key => decide (key ∉ keys d)) ∘ Prod.fst := by
    funext m
    rw [Bool.eq_iff_iff]
    simp [← contains_iff_mem_keys]
  rw [merge_eq, beyond, hnew, keys, List.map_append, List.map_map, ← List.filter_map]
  rfl

theorem merge_eq_self (hkeys : ∀ key ∈ keys p, key ∈ keys d)
    (h : ∀ m ∈ d, m.2.overlay (p.get? m.1) = m.2) : merge d p = d := by
  have hnone : beyond d p = [] :=
    List.eq_nil_iff_forall_not_mem.mpr fun m hm =>
      (mem_beyond.mp hm).2 (hkeys m.1 (List.mem_map_of_mem (mem_beyond.mp hm).1))
  have hsame : (d.map fun m => (m.1, m.2.overlay (p.get? m.1))) = d.map id :=
    List.map_congr_left fun m hm => Prod.ext rfl (h m hm)
  rw [merge_eq, hnone, hsame, List.append_nil, List.map_id]

end Props

namespace Value

theorem throughout_overlay {v : Value} (hv : v.Throughout KeysOnce) {u : Value}
    (hu : u.Throughout KeysOnce) : (v.overlay (some u)).Throughout KeysOnce := by
  induction v using mapInduction generalizing u with
  | other v hmap => rwa [overlay_of_ne_map (.inl hmap)]
  | map d ih =>
    cases u with
    | map p =>
      obtain ⟨hdkeys, hd⟩ := keysOnce_map_iff.mp hv
      obtain ⟨hpkeys, hp⟩ := keysOnce_map_iff.mp hu
      rw [overlay_map_map, keysOnce_map_iff, Props.keys_merge, List.nodup_append]
      refine ⟨⟨hdkeys, hpkeys.filter _, ?_⟩, fun m hm => ?_⟩
      · rintro key hkey _ hkey' rfl
        exact of_decide_eq_true (List.mem_filter.mp hkey').2 hkey
      · obtain ⟨x, hx, rfl⟩ | hm := Props.mem_merge hm
        · cases hkey : Props.get? x.1 p with
          | none => simpa using hd x hx
          | some w => exact ih x hx (hd x hx) (hp _ (Props.mem_of_get? hkey))
        · exact hp m hm
    | _ => exact hu

theorem overlay_self {v : Value} (h : v.Throughout KeysOnce) : v.overlay (some v) = v := by
  induction v using mapInduction with
  | other v hmap => exact overlay_of_ne_map (.inl hmap)
  | map ms ih =>
    obtain ⟨hkeys, hms⟩ := keysOnce_map_iff.mp h
    rw [overlay_map_map, Props.merge_eq_self (fun _ => id)]
    intro m hm
    rw [Props.get?_of_mem hkeys hm]
    exact ih m hm (hms m hm)

theorem overlay_overlay (v : Value) {u : Value} (h : u.Throughout KeysOnce) :
    (v.overlay (some u)).overlay (some u) = v.overlay (some u) := by
  induction v using mapInduction generalizing u with
  | other v hmap => rw [overlay_of_ne_map (.inl hmap), overlay_self h]
  | map d ih =>
    cases u with
    | map p =>
      obtain ⟨hkeys, hp⟩ := keysOnce_map_iff.mp h
      rw [overlay_map_map, overlay_map_map, Props.merge_eq_self]
      · intro key hkey
        rw [Props.keys_merge, List.mem_append, List.mem_filter]
        by_cases hd : key ∈ Props.keys d
        · exact .inl hd
        · exact .inr ⟨hkey, decide_eq_true hd⟩
      · intro m hm
        obtain ⟨x, hx, rfl⟩ | hm := Props.mem_merge hm
        · cases hkey : Props.get? x.1 p with
          | none => rw [overlay_none]
          | some w => exact ih x hx (hp _ (Props.mem_of_get? hkey))
        · rw [Props.get?_of_mem hkeys hm, overlay_self (hp m hm)]
    | _ => exact overlay_self h

def at? : List String → Value → Option Value
  | [], v => some v
  | key :: path, .map ms => (Props.get? key ms).bind (at? path)
  | _ :: _, _ => none

/-- Something other than a map is met on a path before its end. -/
def EndsEarly (v : Value) (path : List String) : Prop :=
  ∃ before after w, path = before ++ after ∧ after ≠ [] ∧ v.at? before = some w ∧
    ∀ ms, w ≠ .map ms

def stops : List String → Value → Bool
  | [], _ => false
  | key :: path, .map ms => (Props.get? key ms).any (stops path)
  | _ :: _, _ => true

theorem at?_of_ne_map {v : Value} (h : ∀ ms, v ≠ .map ms) (key : String) (path : List String) :
    v.at? (key :: path) = none := by
  cases v with
  | map ms => exact absurd rfl (h ms)
  | _ => rfl

theorem at?_append (before after : List String) (v : Value) :
    v.at? (before ++ after) = (v.at? before).bind (at? after) := by
  induction before generalizing v with
  | nil => rfl
  | cons key before ih =>
    cases v with
    | map ms => cases hkey : Props.get? key ms <;> simp [at?, hkey, ih]
    | _ => rfl

theorem stops_of_ne_map {v : Value} (h : ∀ ms, v ≠ .map ms) (key : String) (path : List String) :
    v.stops (key :: path) = true := by
  cases v with
  | map ms => exact absurd rfl (h ms)
  | _ => rfl

theorem stops_iff {path : List String} {v : Value} : v.stops path = true ↔ v.EndsEarly path := by
  induction path generalizing v with
  | nil =>
    refine iff_of_false (by simp [stops]) ?_
    rintro ⟨before, after, w, hpath, hafter, -⟩
    exact hafter (List.append_eq_nil_iff.mp hpath.symm).2
  | cons key path ih =>
    by_cases hmap : ∃ ms, v = .map ms
    · obtain ⟨ms, rfl⟩ := hmap
      rw [stops, Option.any_eq_true]
      constructor
      · rintro ⟨u, hu, hstops⟩
        obtain ⟨before, after, w, rfl, hafter, hw, hne⟩ := ih.mp hstops
        exact ⟨key :: before, after, w, rfl, hafter, by simp [at?, hu, hw], hne⟩
      · rintro ⟨before, after, w, hpath, hafter, hw, hne⟩
        cases before with
        | nil =>
          cases hw
          exact absurd rfl (hne ms)
        | cons key' before =>
          obtain ⟨hkey, hrest⟩ := List.cons.inj hpath
          obtain ⟨u, hu, hw⟩ := Option.bind_eq_some_iff.mp hw
          exact ⟨u, hkey ▸ hu, ih.mpr ⟨before, after, w, hrest, hafter, hw, hne⟩⟩
    · replace hmap := not_exists.mp hmap
      exact iff_of_true (stops_of_ne_map hmap key path) ⟨[], key :: path, v, rfl, nofun, rfl, hmap⟩

theorem at?_of_endsEarly {v : Value} {path : List String} (h : v.EndsEarly path) :
    v.at? path = none := by
  obtain ⟨before, after, w, rfl, hafter, hw, hmap⟩ := h
  obtain ⟨key, rest, rfl⟩ := List.exists_cons_of_ne_nil hafter
  rw [at?_append, hw]
  exact at?_of_ne_map hmap key rest

theorem at?_overlay (path : List String) (v u : Value) :
    (v.overlay (some u)).at? path =
      ((u.at? path).map fun w => (v.at? path).elim w (·.overlay (some w))).or
        (if u.stops path then none else v.at? path) := by
  induction path generalizing v u with
  | nil => rfl
  | cons key path ih =>
    by_cases hv : ∃ d, v = .map d
    · obtain ⟨d, rfl⟩ := hv
      by_cases hu : ∃ p, u = .map p
      · obtain ⟨p, rfl⟩ := hu
        rw [overlay_map_map, at?, at?, at?, stops, Props.get?_merge]
        cases Props.get? key p with
        | none => cases Props.get? key d <;> simp
        | some u =>
          cases Props.get? key d with
          | none => cases hat : u.at? path <;> simp [hat]
          | some v => exact ih v u
      · replace hu := not_exists.mp hu
        rw [overlay_of_ne_map (.inr hu), at?_of_ne_map hu, stops_of_ne_map hu]
        simp
    · replace hv := not_exists.mp hv
      rw [overlay_of_ne_map (.inl hv), at?_of_ne_map hv]
      simp

end Value

namespace Props

open Value

theorem merge_nil (d : Props) : merge d [] = d := merge_eq_self nofun fun m _ => overlay_none m.2

theorem nil_merge (p : Props) : merge [] p = p := by
  rw [merge_eq]
  exact List.filter_eq_self.mpr fun _ _ => rfl

/-- Props are laid over defaults key by key: no key comes twice, and where both have a map, its keys
are those of the default in their order and then the others of the props in theirs. Elsewhere
a path leads to what the props have there; to nothing if it ends early in the props; and else to what
the defaults have there. Without props, and without defaults, the others are all there is, and to lay
the same props over twice is to lay them over once. -/
theorem merge_overlays {d p : Props} (hd : (Value.map d).Throughout KeysOnce)
    (hp : (Value.map p).Throughout KeysOnce) :
    (Value.map (merge d p)).Throughout KeysOnce ∧
      (∀ path ds ps, (Value.map d).at? path = some (.map ds) →
        (Value.map p).at? path = some (.map ps) →
        (Value.map (merge d p)).at? path = some (.map (merge ds ps)) ∧
          keys (merge ds ps) = keys ds ++ (keys ps).filter (· ∉ keys ds)) ∧
      (∀ path, (∀ ds ps, ¬((Value.map d).at? path = some (.map ds) ∧
          (Value.map p).at? path = some (.map ps))) →
        (∀ w, (Value.map p).at? path = some w → (Value.map (merge d p)).at? path = some w) ∧
          ((Value.map p).EndsEarly path → (Value.map (merge d p)).at? path = none) ∧
          ((Value.map p).at? path = none → ¬(Value.map p).EndsEarly path →
            (Value.map (merge d p)).at? path = (Value.map d).at? path)) ∧
      merge d [] = d ∧ merge [] p = p ∧ merge (merge d p) p = merge d p := by
  have hat (path : List String) := at?_overlay path (.map d) (.map p)
  simp only [overlay_map_map] at hat
  refine ⟨throughout_overlay hd hp, ?_, ?_, merge_nil d, nil_merge p, ?_⟩
  · intro path ds ps hds hps
    rw [hat, hds, hps]
    exact ⟨rfl, keys_merge ds ps⟩
  · intro path hnot
    refine ⟨fun w hw => ?_, fun hends => ?_, fun hnone hends => ?_⟩
    · rw [hat, hw]
      cases hv : (Value.map d).at? path with
      | none => rfl
      | some v =>
        have hne : (∀ ms, v ≠ .map ms) ∨ ∀ ms, w ≠ .map ms := by
          by_contra hmaps
          simp only [not_or, not_forall, not_not] at hmaps
          obtain ⟨⟨ds, rfl⟩, ps, rfl⟩ := hmaps
          exact hnot ds ps ⟨hv, hw⟩
        simp [overlay_of_ne_map hne]
    · rw [hat, at?_of_endsEarly hends, if_pos (stops_iff.mpr hends)]
      rfl
    · rw [hat, hnone, if_neg (mt stops_iff.mp hends)]
      rfl
  · exact Value.map.inj (overlay_overlay (.map d) hp)

theorem merge_overlays_nested :
    let d : Props := [("a11y", .map [("role", .string "note"), ("live", .map [("on", .null)])]),
      ("items", .list [.null]), ("size", .string "md")]
    let p : Props := [("size", .map []), ("icon", .null),
      ("a11y", .map [("label", .string "Close"), ("live", .bool false)])]
    (Value.map d).Throughout KeysOnce ∧ (Value.map p).Throughout KeysOnce ∧
      merge d p = [("a11y", .map [("role", .string "note"), ("live", .bool false),
        ("label", .string "Close")]), ("items", .list [.null]), ("size", .map []), ("icon", .null)] ∧
      (Value.map (merge d p)).Throughout KeysOnce ∧
      (Value.map (merge d p)).at? ["size"] = some (.map []) ∧
      (Value.map (merge d p)).at? ["a11y", "live", "on"] = none ∧
      merge (merge d p) p = merge d p := by
  intro d p
  have hd : (Value.map d).Throughout KeysOnce := by
    simp [d, keys, Throughout, ThroughoutMembers, ThroughoutItems, KeysOnce]
  have hp : (Value.map p).Throughout KeysOnce := by
    simp [p, keys, Throughout, ThroughoutMembers, KeysOnce]
  obtain ⟨hkeys, -, hpath, -, -, htwice⟩ := merge_overlays hd hp
  have hsize := (hpath ["size"] (by simp [d, at?, get?])).1 _ rfl
  have hearly : (Value.map p).EndsEarly ["a11y", "live", "on"] :=
    ⟨["a11y", "live"], ["on"], .bool false, rfl, by simp, rfl, by simp⟩
  have hon := (hpath ["a11y", "live", "on"] (by simp [p, at?, get?])).2.1 hearly
  exact ⟨hd, hp, rfl, hkeys, hsize, hon, htwice⟩

end Props

end StaticSite
