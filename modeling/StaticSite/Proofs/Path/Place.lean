import Mathlib.Data.List.Infix
import Mathlib.Tactic.SplitIfs
import StaticSite.Path.Normal
import StaticSite.Proofs.Path.Spelling

namespace StaticSite

def Place.follow (place : Place) (segment : String) : Place :=
  match Component.ofSegment? segment with
  | some c => place.step c
  | none => place

namespace Place

def Below (place out : Place) : Prop := out <+: place ∧ place ≠ out

theorem below_append {out names : Place} (h : names ≠ []) : Below (out ++ names) out :=
  ⟨List.prefix_append out names, by simpa using h⟩

theorem Below.append {place out : Place} (h : place.Below out) (names : Place) :
    Below (place ++ names) out := by
  obtain ⟨⟨below, rfl⟩, hne⟩ := h
  rw [List.append_assoc]
  exact below_append fun hnil => hne (by simp [(List.append_eq_nil_iff.mp hnil).1])

theorem Below.not_prefix {place out : Place} (h : place.Below out) : ¬place <+: out :=
  fun hle => h.2 (hle.eq_of_length (Nat.le_antisymm hle.length_le h.1.length_le))

theorem append_ne_append {s t : Place} (hst : ¬s <+: t) (hts : ¬t <+: s) (a b : Place) :
    s ++ a ≠ t ++ b := by
  intro h
  obtain hle | hle := le_total s.length t.length
  · exact hst (List.prefix_of_prefix_length_le ⟨a, h⟩ ⟨b, rfl⟩ hle)
  · exact hts (List.prefix_of_prefix_length_le ⟨b, rfl⟩ ⟨a, h⟩ hle)

theorem follow_cases (place : Place) (s : String) :
    place.follow s = place ∨ place.follow s = place.dropLast ∨
      Component.ofSegment? s = some (.name s) ∧ place.follow s = place ++ [s] := by
  unfold follow Component.ofSegment?
  split_ifs
  · exact .inl rfl
  · exact .inr (.inl rfl)
  · exact .inr (.inr ⟨rfl, rfl⟩)

theorem follow_of_name {place : Place} {s : String} (h : Component.ofSegment? s = some (.name s)) :
    place.follow s = place ++ [s] := by simp [follow, h, step]

theorem foldl_follow_names {names : List String}
    (h : ∀ n ∈ names, Component.ofSegment? n = some (.name n)) (place : Place) :
    names.foldl follow place = place ++ names := by
  induction names generalizing place with
  | nil => simp
  | cons n ns ih =>
    rw [List.forall_mem_cons] at h
    simp [follow_of_name h.1, ih h.2]

end Place

theorem Component.eq_of_ofSegment? {s name : String} (h : ofSegment? s = some (.name name)) :
    name = s := by
  unfold ofSegment? at h
  split_ifs at h
  · cases h
  · exact (Component.name.inj (Option.some.inj h)).symm

namespace Path

theorem foldl_filterMap_step (place : Place) (segments : List String) :
    (segments.filterMap Component.ofSegment?).foldl Place.step place =
      segments.foldl Place.follow place := by
  induction segments generalizing place with
  | nil => rfl
  | cons s rest ih =>
    cases h : Component.ofSegment? s with
    | none => simp [h, ih, Place.follow]
    | some c => simp [h, ih, Place.follow]

def origin (p : Path) (cwd : Place) : Place := if p.isAbsolute then [] else cwd

theorem foldl_components (p : Path) (cwd : Place) :
    p.components.foldl Place.step cwd = p.segments.foldl Place.follow (p.origin cwd) := by
  unfold components origin
  split
  · simp [foldl_filterMap_step, Place.step]
  · split
    · next rest h =>
      rw [h, List.foldl_cons, foldl_filterMap_step, List.foldl_cons]
      rfl
    · exact foldl_filterMap_step cwd p.segments

theorem normalize?_eq_some_iff {p : Path} {cwd place : Place} :
    p.normalize? cwd = some place ↔
      p.isEmpty = false ∧ p.segments.foldl Place.follow (p.origin cwd) = place := by
  rw [normalize?, foldl_components]
  cases p.isEmpty <;> simp

theorem foldl_openSegments (p : Path) (place : Place) :
    p.openSegments.foldl Place.follow place = p.segments.foldl Place.follow place := by
  unfold openSegments
  split
  · next h =>
    obtain ⟨init, hinit⟩ := List.getLast?_eq_some_iff.mp h
    rw [hinit, List.dropLast_concat, List.foldl_append]
    rfl
  · rfl

theorem meantReverse_suffix (p : Path) (segments : List String) :
    p.meantReverse segments <:+ segments := by
  induction segments with
  | nil => exact List.suffix_refl _
  | cons s rest ih =>
    unfold meantReverse
    split
    · exact List.suffix_refl _
    · exact ih.trans (List.suffix_cons s rest)

structure Precedes (q p : Path) : Prop where
  isAbsolute_eq : q.isAbsolute = p.isAbsolute
  segments_prefix : q.segments <+: p.segments

theorem Precedes.refl (p : Path) : p.Precedes p := ⟨rfl, List.prefix_refl _⟩

theorem Precedes.trans {p q r : Path} (h : r.Precedes q) (h' : q.Precedes p) : r.Precedes p :=
  ⟨h.isAbsolute_eq.trans h'.isAbsolute_eq, h.segments_prefix.trans h'.segments_prefix⟩

theorem Precedes.spelled {p q : Path} (h : q.Precedes p) (hp : p.Spelled) : q.Spelled :=
  fun s hs => hp s (h.segments_prefix.subset hs)

theorem Precedes.origin_eq {p q : Path} (h : q.Precedes p) (cwd : Place) :
    q.origin cwd = p.origin cwd := by
  rw [origin, origin, h.isAbsolute_eq]

theorem parent?_precedes {p q : Path} (h : p.parent? = some q) : q.Precedes p := by
  unfold parent? at h
  split at h
  · cases h
  · next last rest heq =>
    cases h
    have hrest : rest <:+ p.segments.reverse :=
      (List.suffix_cons last rest).trans (heq ▸ meantReverse_suffix p p.segments.reverse)
    have hmeant : p.meantReverse rest <:+ p.segments.reverse :=
      (meantReverse_suffix p rest).trans hrest
    exact ⟨rfl, by simpa using List.reverse_prefix.mpr hmeant⟩

/-- The way that `p` spells comes to a place: at its start, at its end, or in between. -/
def Visits (p : Path) (cwd place : Place) : Prop :=
  ∃ segments, segments <+: p.segments ∧ segments.foldl Place.follow (p.origin cwd) = place

theorem visits_origin (p : Path) (cwd : Place) : p.Visits cwd (p.origin cwd) :=
  ⟨[], List.nil_prefix, rfl⟩

theorem visits_of_normalize? {p : Path} {cwd place : Place} (h : p.normalize? cwd = some place) :
    p.Visits cwd place := ⟨p.segments, List.prefix_refl _, (normalize?_eq_some_iff.mp h).2⟩

theorem Precedes.visits {p q : Path} {cwd place : Place} (h : q.Precedes p)
    (hq : q.Visits cwd place) : p.Visits cwd place := by
  obtain ⟨segments, hsegments, rfl⟩ := hq
  exact ⟨segments, hsegments.trans h.segments_prefix, by rw [h.origin_eq]⟩

theorem join_of_isAbsolute (p : Path) {q : Path} (hq : q.isAbsolute = true) : p.join q = q :=
  if_pos hq

theorem isAbsolute_join (p : Path) {q : Path} (hq : q.isAbsolute = false) :
    (p.join q).isAbsolute = p.isAbsolute := by
  unfold join
  rw [if_neg (by simp [hq])]
  split <;> rfl

theorem isEmpty_join (p q : Path) : (p.join q).isEmpty = (p.isEmpty && q.isEmpty) := by
  unfold join isEmpty
  cases hq : q.isAbsolute <;> cases hp : p.segments <;> cases hs : q.segments <;> simp [hq, hs]

theorem foldl_join (p : Path) {q : Path} (hq : q.isAbsolute = false) (place : Place) :
    (p.join q).segments.foldl Place.follow place =
      q.segments.foldl Place.follow (p.segments.foldl Place.follow place) := by
  unfold join
  rw [if_neg (by simp [hq])]
  split
  · next hp => simp [List.isEmpty_iff.mp hp]
  · rw [List.foldl_append, foldl_openSegments]
    cases q.segments <;> rfl

theorem normalize?_join {p q : Path} {cwd place : Place} (hp : p.normalize? cwd = some place)
    (hq : q.isAbsolute = false) :
    (p.join q).normalize? cwd = some (q.segments.foldl Place.follow place) := by
  rw [normalize?_eq_some_iff] at hp ⊢
  obtain ⟨hempty, rfl⟩ := hp
  refine ⟨by simp [isEmpty_join, hempty], ?_⟩
  rw [foldl_join p hq, origin, origin, isAbsolute_join p hq]

theorem normalize?_join_ofNames {p : Path} {cwd place : Place} (hp : p.normalize? cwd = some place)
    {names : List String} (hnames : ∀ n ∈ names, IsFileName n) :
    (p.join (ofNames names)).normalize? cwd = some (place ++ names) := by
  rw [normalize?_join hp rfl]
  exact congrArg some (Place.foldl_follow_names (fun n hn => (hnames n hn).ofSegment?_eq) place)

end Path

end StaticSite
