import StaticSite.Proofs.Path.Place

/-! Paths that never lead up: all that they pass lies on the way down to where they end. -/

namespace StaticSite

def Place.named (segments : List String) : Place :=
  segments.filter fun s => (Component.ofSegment? s).isSome

namespace Place

@[simp] theorem named_nil : named [] = [] := rfl

@[simp] theorem named_append (a b : List String) : named (a ++ b) = named a ++ named b :=
  List.filter_append ..

theorem append_named_prefix (start : Place) {a b : List String} (h : a <+: b) :
    start ++ named a <+: start ++ named b :=
  (List.prefix_append_right_inj start).mpr (h.filter _)

theorem named_of_name {s : String} (h : Component.ofSegment? s = some (.name s)) :
    named [s] = [s] := by simp [named, h]

theorem named_append_of_blank (segments : List String) {blanks : List String}
    (h : ∀ s ∈ blanks, Component.ofSegment? s = none) :
    named (segments ++ blanks) = named segments := by
  have hnil : named blanks = [] := List.filter_eq_nil_iff.mpr fun s hs => by simp [h s hs]
  rw [named_append, hnil, List.append_nil]

theorem follow_eq {s : String} (h : s ≠ "..") (place : Place) :
    place.follow s = place ++ named [s] := by
  unfold follow named Component.ofSegment?
  by_cases hempty : s = "" <;> by_cases hhere : s = "." <;> simp [hempty, hhere, h, step]

theorem foldl_follow {segments : List String} (h : ".." ∉ segments) (place : Place) :
    segments.foldl follow place = place ++ named segments := by
  induction segments generalizing place with
  | nil => simp
  | cons s rest ih =>
    rw [List.mem_cons, not_or] at h
    rw [List.foldl_cons, ih h.2, follow_eq (Ne.symm h.1), List.append_assoc, ← named_append]
    rfl

theorem not_concat_prefix (place : Place) (name : String) : ¬place ++ [name] <+: place := by
  intro h
  have hlength := h.length_le
  rw [List.length_append, List.length_singleton] at hlength
  omega

end Place

theorem Component.ofSegment?_of_isSome {s : String} (h : (ofSegment? s).isSome) (hup : s ≠ "..") :
    ofSegment? s = some (.name s) := by
  unfold ofSegment? at h ⊢
  split_ifs at h ⊢ with hblank
  · simp at h
  · rfl

namespace Path

def Straight (p : Path) : Prop := ".." ∉ p.segments

variable {p q : Path} {cwd place : Place}

theorem Straight.normalize? (h : p.Straight) (hempty : p.isEmpty = false) (cwd : Place) :
    p.normalize? cwd = some (p.origin cwd ++ Place.named p.segments) :=
  normalize?_eq_some_iff.mpr ⟨hempty, Place.foldl_follow h _⟩

theorem Straight.eq_of_normalize? (h : p.Straight) (hplace : p.normalize? cwd = some place) :
    place = p.origin cwd ++ Place.named p.segments := by
  obtain ⟨-, rfl⟩ := normalize?_eq_some_iff.mp hplace
  exact Place.foldl_follow h _

theorem Precedes.straight (h : q.Precedes p) (hp : p.Straight) : q.Straight :=
  fun hup => hp (h.segments_prefix.subset hup)

theorem Precedes.place_prefix (h : q.Precedes p) (hp : p.Straight) {above : Place}
    (hq : q.normalize? cwd = some above) (hplace : p.normalize? cwd = some place) :
    above <+: place := by
  rw [(h.straight hp).eq_of_normalize? hq, hp.eq_of_normalize? hplace, h.origin_eq]
  obtain ⟨rest, hrest⟩ := h.segments_prefix
  rw [← hrest, Place.named_append, ← List.append_assoc]
  exact List.prefix_append _ _

theorem Straight.prefix_of_visits (h : p.Straight) (hplace : p.normalize? cwd = some place)
    {visited : Place} (hvisits : p.Visits cwd visited) : visited <+: place := by
  obtain ⟨segments, hsegments, rfl⟩ := hvisits
  rw [h.eq_of_normalize? hplace, Place.foldl_follow fun hup => h (hsegments.subset hup)]
  exact Place.append_named_prefix _ hsegments

theorem Straight.not_below_of_visits (h : p.Straight) (hplace : p.normalize? cwd = some place)
    {visited : Place} (hvisits : p.Visits cwd visited) : ¬visited.Below place :=
  fun hbelow => hbelow.not_prefix (h.prefix_of_visits hplace hvisits)

theorem Straight.join (hp : p.Straight) (hq : q.Straight) : (p.join q).Straight := by
  unfold Straight Path.join at *
  split
  · exact hq
  · split
    · exact hq
    · rw [List.mem_append, not_or]
      refine ⟨fun h => hp (p.openSegments_subset h), ?_⟩
      split
      · decide
      · exact hq

theorem straight_ofNames {names : List String} (h : ∀ n ∈ names, IsFileName n) :
    (ofNames names).Straight :=
  fun hup => by simpa [Component.ofSegment?] using (h _ hup).ofSegment?_eq

structure EndsIn (p : Path) (init : List String) (last : String) (slashes : Nat) : Prop where
  segments_eq : p.segments = init ++ last :: List.replicate slashes ""
  name : Component.ofSegment? last = some (.name last)

def EndsInName (p : Path) : Prop := ∃ init last slashes, p.EndsIn init last slashes

theorem EndsIn.named_segments {init : List String} {last : String} {slashes : Nat}
    (h : p.EndsIn init last slashes) : Place.named p.segments = Place.named init ++ [last] := by
  have hslashes : ∀ s ∈ List.replicate slashes "", Component.ofSegment? s = none :=
    fun s hs => List.eq_of_mem_replicate hs ▸ rfl
  rw [h.segments_eq, List.append_cons, Place.named_append_of_blank _ hslashes, Place.named_append,
    Place.named_of_name h.name]

theorem EndsIn.not_up {init : List String} {last : String} {slashes : Nat}
    (h : p.EndsIn init last slashes) (hp : p.Straight) : ".." ∉ init ++ [last] := by
  intro hmem
  refine hp ?_
  rw [h.segments_eq, List.append_cons]
  exact List.mem_append_left _ hmem

theorem EndsIn.ne_up {init : List String} {last : String} {slashes : Nat}
    (h : p.EndsIn init last slashes) (front : List String) : p.segments ≠ front ++ [".."] := by
  intro hup
  have hlast := congrArg List.getLast? (h.segments_eq.symm.trans hup)
  cases slashes with
  | zero =>
    have heq : last = ".." := by simpa using hlast
    exact (Component.ofSegment?_name_iff.mp h.name).2.2 heq
  | succ n => simp [List.getLast?_append, List.getLast?_cons, List.getLast?_replicate] at hlast

theorem EndsIn.openSegments_eq {init : List String} {last : String} {slashes : Nat}
    (h : p.EndsIn init last slashes) :
    p.openSegments = init ++ last :: List.replicate (slashes - 1) "" := by
  unfold openSegments
  rw [h.segments_eq]
  cases slashes with
  | zero =>
    have hlast : last ≠ "" := (Component.ofSegment?_name_iff.mp h.name).1
    simp [List.getLast?_append, hlast]
  | succ n =>
    have hend : init ++ last :: List.replicate (n + 1) "" =
        init ++ last :: List.replicate n "" ++ [""] := by simp [List.replicate_succ']
    rw [hend, List.dropLast_concat, if_pos List.getLast?_concat]
    rfl

theorem join_ofNames (p : Path) {names : List String} (hne : names ≠ []) :
    p.join (ofNames names) = ⟨p.isAbsolute, p.openSegments ++ names⟩ := by
  have hnames : names.isEmpty = false := by simpa using hne
  cases hs : p.segments with
  | nil => simp [Path.join, ofNames, openSegments, hs]
  | cons s rest => simp [Path.join, ofNames, hs, hnames]

theorem named_openSegments (p : Path) (hp : p.Straight) :
    Place.named p.openSegments = Place.named p.segments := by
  have hopen : ".." ∉ p.openSegments := fun hup => hp (p.openSegments_subset hup)
  have hfollow := p.foldl_openSegments []
  rwa [Place.foldl_follow hopen, Place.foldl_follow hp, List.nil_append, List.nil_append] at hfollow

theorem meantReverse_eq (p : Path) (segments : List String) :
    ∃ blanks, segments = blanks ++ p.meantReverse segments ∧
      (∀ s ∈ blanks, Component.ofSegment? s = none) ∧
      (p.meantReverse segments = [] ∨ ∃ s rest, p.meantReverse segments = s :: rest ∧
        p.isMeant rest s = true) := by
  induction segments with
  | nil => exact ⟨[], rfl, by simp, .inl rfl⟩
  | cons s rest ih =>
    unfold meantReverse
    by_cases hmeant : p.isMeant rest s = true
    · exact ⟨[], by simp [hmeant], by simp, .inr ⟨s, rest, by simp [hmeant], hmeant⟩⟩
    · obtain ⟨blanks, hsplit, hblanks, hend⟩ := ih
      have hs : Component.ofSegment? s = none := by
        simp only [isMeant, Bool.or_eq_true, not_or] at hmeant
        simpa using hmeant.1
      refine ⟨s :: blanks, ?_, by simpa using ⟨hs, hblanks⟩, ?_⟩
      · rw [if_neg hmeant, List.cons_append, ← hsplit]
      · rwa [if_neg hmeant]

theorem meantReverse_replicate (p : Path) (n : Nat) (rest : List String) :
    p.meantReverse (List.replicate n "" ++ rest) = p.meantReverse rest := by
  induction n with
  | zero => rfl
  | succ n ih =>
    have hblank : p.isMeant (List.replicate n "" ++ rest) "" = false := by
      simp [isMeant, Component.ofSegment?]
    simpa [List.replicate_succ, meantReverse, hblank] using ih

structure StopsAt (p : Path) (init : List String) (last : String) (slashes : Nat) : Prop where
  segments_eq : p.segments = init ++ last :: List.replicate slashes ""
  isMeant : p.isMeant init.reverse last = true

namespace StopsAt

variable {init : List String} {last : String} {slashes : Nat} (h : p.StopsAt init last slashes)
include h

theorem ne_empty : last ≠ "" := by
  rintro rfl
  simpa [Path.isMeant, Component.ofSegment?] using h.isMeant

theorem parent? :
    ∃ q blanks, p.parent? = some q ∧ init = q.segments ++ blanks ∧
      (∀ s ∈ blanks, Component.ofSegment? s = none) ∧
      (q.segments = [] ∨ ∃ init' last', q.StopsAt init' last' 0) := by
  have hmeant : p.meantReverse p.segments.reverse = last :: init.reverse := by
    simp [h.segments_eq, meantReverse_replicate, meantReverse, h.isMeant]
  obtain ⟨blanks, hsplit, hblanks, hend⟩ := p.meantReverse_eq init.reverse
  refine ⟨⟨p.isAbsolute, (p.meantReverse init.reverse).reverse⟩, blanks.reverse, ?_, ?_,
    by simpa using hblanks, ?_⟩
  · rw [Path.parent?, hmeant]
  · rw [← List.reverse_append, ← hsplit, List.reverse_reverse]
  · obtain hnil | ⟨s, rest, hcons, hs⟩ := hend
    · exact .inl (by simp [hnil])
    · exact .inr ⟨rest.reverse, s, ⟨by simp [hcons], by rwa [List.reverse_reverse]⟩⟩

theorem endsIn (hup : last ≠ "..") (hnamed : Place.named p.segments ≠ []) :
    p.EndsIn init last slashes := by
  refine ⟨h.segments_eq, ?_⟩
  have hmeant := h.isMeant
  simp only [Path.isMeant, Bool.or_eq_true, Bool.and_eq_true, decide_eq_true_eq] at hmeant
  obtain hname | ⟨⟨-, hfirst⟩, rfl⟩ := hmeant
  · exact Component.ofSegment?_of_isSome hname hup
  · obtain rfl : init = [] := by simpa using hfirst
    exact absurd (by simp [h.segments_eq, Place.named, Component.ofSegment?]) hnamed

end StopsAt

theorem EndsIn.stopsAt {init : List String} {last : String} {slashes : Nat}
    (h : p.EndsIn init last slashes) : p.StopsAt init last slashes :=
  ⟨h.segments_eq, by simp [isMeant, h.name]⟩

theorem EndsIn.parent? {init : List String} {last : String} {slashes : Nat}
    (h : p.EndsIn init last slashes) (hup : ".." ∉ init) :
    ∃ q blanks, p.parent? = some q ∧ init = q.segments ++ blanks ∧
      (∀ s ∈ blanks, Component.ofSegment? s = none) ∧
      (Place.named q.segments = [] ∨ ∃ init' last', q.EndsIn init' last' 0) := by
  obtain ⟨q, blanks, hparent, rfl, hblanks, hend⟩ := h.stopsAt.parent?
  refine ⟨q, blanks, hparent, rfl, hblanks, ?_⟩
  by_cases hnamed : Place.named q.segments = []
  · exact .inl hnamed
  · obtain hnil | ⟨init', last', hstops⟩ := hend
    · exact .inl (by simp [hnil])
    · refine .inr ⟨init', last', hstops.endsIn ?_ hnamed⟩
      rintro rfl
      exact hup (by simp [hstops.segments_eq])

end Path

end StaticSite
