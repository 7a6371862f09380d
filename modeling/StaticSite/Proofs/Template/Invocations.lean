import Mathlib.Order.Bounds.Basic
import StaticSite.Proofs.Template.Moved
import StaticSite.Proofs.Template.Places

namespace StaticSite

namespace Position

def atOffset (firstLine : Nat) (text : List Char) (i : Nat) : Position :=
  (text.take i).foldl next ⟨firstLine, 1⟩

def down (n : Nat) (p : Position) : Position := ⟨p.line + n, p.column⟩

theorem down_injective (n : Nat) : Function.Injective (down n) := by
  rintro ⟨line, column⟩ ⟨line', column'⟩ h
  simpa [down] using h

theorem down_next (n : Nat) (p : Position) (c : Char) : down n (p.next c) = (down n p).next c := by
  unfold next
  split_ifs
  · simp [down, Nat.add_right_comm]
  · rfl

theorem foldl_next_down (n : Nat) (p : Position) (cs : List Char) :
    cs.foldl next (down n p) = down n (cs.foldl next p) :=
  List.foldl_hom (down n) fun p c => (down_next n p c).symm

theorem after_eq_foldl (before : List Char) : after before = before.foldl next ⟨1, 1⟩ := by
  induction before using List.reverseRecOn with
  | nil => rfl
  | append_singleton before c ih => rw [after_concat, ih, List.foldl_concat]

theorem foldl_next_cases (p : Position) (cs : List Char) :
    p.line < (cs.foldl next p).line ∨
      (cs.foldl next p).line = p.line ∧ (cs.foldl next p).column = p.column + cs.length := by
  induction cs generalizing p with
  | nil => simp
  | cons c cs ih =>
    have hrest := ih (p.next c)
    rw [List.foldl_cons, List.length_cons]
    by_cases hc : c = '\n'
    · have hline : (p.next c).line = p.line + 1 := by simp [next, hc]
      omega
    · have hline : (p.next c).line = p.line := by simp [next, hc]
      have hcolumn : (p.next c).column = p.column + 1 := by simp [next, hc]
      omega

theorem atOffset_ne {firstLine : Nat} {text : List Char} {i j : Nat} (hij : i < j)
    (hj : j ≤ text.length) : atOffset firstLine text i ≠ atOffset firstLine text j := by
  have hsplit : text.take i ++ (text.take j).drop i = text.take j := by
    rw [← Nat.min_eq_left hij.le, ← List.take_take, Nat.min_eq_left hij.le,
      List.take_append_drop]
  have hlength : 0 < ((text.take j).drop i).length := by
    rw [List.length_drop, List.length_take]
    omega
  intro h
  rw [atOffset, atOffset, ← hsplit, List.foldl_append] at h
  have := foldl_next_cases ((text.take i).foldl next ⟨firstLine, 1⟩) ((text.take j).drop i)
  rw [← h] at this
  omega

theorem atOffset_inj {firstLine : Nat} {text : List Char} {i j : Nat} (hi : TagAt text i)
    (hj : TagAt text j) (h : atOffset firstLine text i = atOffset firstLine text j) : i = j := by
  have := hi.lt
  have := hj.lt
  obtain hlt | heq | hgt := Nat.lt_trichotomy i j
  · exact absurd h (atOffset_ne hlt (by omega))
  · exact heq
  · exact absurd h.symm (atOffset_ne hgt (by omega))

end Position

namespace Template

open Position

theorem places_moved (f : Position → Position) (ls : List Lexeme) :
    places (ls.map (Lexeme.moved f)) = (places ls).map f := by
  have hplace (x : Lexeme) : (x.moved f).place? = x.place?.map f := by cases x <;> rfl
  simp only [places, List.filterMap_map, List.map_filterMap, Function.comp_def, hplace]

theorem down_comp_atOffset (n : Nat) (text : List Char) :
    down n ∘ atOffset 0 text = atOffset n text := by
  funext i
  rw [Function.comp, atOffset, ← foldl_next_down]
  simp [down, atOffset]

theorem exists_offsets {firstLine : Nat} {cs : List Char} {ls : List Lexeme}
    (h : lexemes firstLine cs = .ok ls) :
    ∃ is : List Nat, is.Pairwise (· < ·) ∧ (∀ i ∈ is, TagAt cs i) ∧
      places ls = is.map (atOffset firstLine cs) := by
  -- Compared with a text on line 0, this one stands further down, and so does one on line 1, of
  -- which the offsets are known.
  have hmoved (n : Nat) {ls : List Lexeme} : lexemes n cs = .ok ls ↔
      ∃ ls₀, lexemes 0 cs = .ok ls₀ ∧ ls₀.map (Lexeme.moved (down n)) = ls :=
    lexemes_eq_ok_iff_moved (down_next n) (by simp [down])
  obtain ⟨ls₀, hzero, rfl⟩ := (hmoved firstLine).mp h
  have hone : lexemes 1 cs = .ok (ls₀.map (Lexeme.moved (down 1))) :=
    (hmoved 1).mpr ⟨ls₀, hzero, rfl⟩
  obtain ⟨is, hinc, htag, hplaces⟩ := @lexemes_places [] cs 1 rfl
  refine ⟨is, hinc, htag, ?_⟩
  have hzeroPlaces : places ls₀ = is.map (atOffset 0 cs) := by
    rw [hone, outcomePlaces, places_moved, List.nil_append] at hplaces
    apply List.map_injective_iff.mpr (down_injective 1)
    rw [hplaces, List.map_map, down_comp_atOffset]
    exact List.map_congr_left fun i _ => after_eq_foldl (cs.take i)
  rw [places_moved, hzeroPlaces, List.map_map, down_comp_atOffset]

theorem nodup_addName {names : List String} (h : names.Nodup) (name : String) :
    (addName names name).Nodup := by
  rw [addName]
  split
  · exact h
  · next hnew =>
    have hnew : name ∉ names := by simpa using hnew
    simpa [List.nodup_append, h] using fun n hn => ne_of_mem_of_not_mem hn hnew

theorem nodup_foldl_addName {names : List String} (h : names.Nodup) (more : List String) :
    (more.foldl addName names).Nodup :=
  List.foldlRecOn more _ h fun _ hnames name _ => nodup_addName hnames name

theorem isLeast_concat {us : List (String × Nat)} {m : String} {i j : Nat} (name : String)
    (hlater : ∀ u ∈ us, u.2 < j) (h : IsLeast {k | (m, k) ∈ us} i) :
    IsLeast {k | (m, k) ∈ us ++ [(name, j)]} i := by
  refine ⟨List.mem_append_left _ h.1, fun k hk => ?_⟩
  obtain hk | hk := List.mem_append.mp hk
  · exact h.2 hk
  · obtain ⟨-, rfl⟩ := Prod.mk.inj (List.mem_singleton.mp hk)
    exact (hlater _ h.1).le

theorem exists_first_offsets {us : List (String × Nat)} (h : (us.map Prod.snd).Pairwise (· < ·)) :
    ∃ is, is.Sublist (us.map Prod.snd) ∧
      List.Forall₂ (fun name i => IsLeast {j | (name, j) ∈ us} i)
        ((us.map Prod.fst).foldl addName []) is := by
  induction us using List.reverseRecOn with
  | nil => exact ⟨[], .slnil, .nil⟩
  | append_singleton us u ih =>
    obtain ⟨name, j⟩ := u
    rw [List.map_append, List.pairwise_append] at h
    obtain ⟨hus, -, hlast⟩ := h
    have hlater : ∀ u ∈ us, u.2 < j := fun u hu => hlast u.2 (List.mem_map_of_mem hu) j (by simp)
    obtain ⟨is, hsub, hfirst⟩ := ih hus
    have hfirst := hfirst.imp fun m i hi => isLeast_concat name hlater hi
    have hmem : name ∈ (us.map Prod.fst).foldl addName [] ↔ name ∈ us.map Prod.fst := by
      simp [mem_foldl_addName]
    rw [List.map_append, List.map_append, List.foldl_append, List.map_singleton,
      List.map_singleton, List.foldl_cons, List.foldl_nil, addName]
    split
    · exact ⟨is, hsub.trans (List.sublist_append_left _ _), hfirst⟩
    · next hnew =>
      rw [List.contains_iff_mem, hmem] at hnew
      refine ⟨is ++ [j], hsub.append (List.Sublist.refl _), List.rel_append hfirst (.cons ?_ .nil)⟩
      refine ⟨by simp, fun k hk => ?_⟩
      obtain hk | hk := List.mem_append.mp hk
      · exact absurd (List.mem_map_of_mem hk) hnew
      · exact (Prod.mk.inj (List.mem_singleton.mp hk)).2.ge

def uses (ns : List Node) : List (String × Position) :=
  (nodesParts ns).filterMap fun n => n.callName?.bind fun name => n.place?.map (name, ·)

theorem mem_uses {ns : List Node} {name : String} {pos : Position} :
    (name, pos) ∈ uses ns ↔
      ∃ call block, .invoke call block pos ∈ nodesParts ns ∧ call.name = name := by
  rw [uses, List.mem_filterMap]
  constructor
  · rintro ⟨n, hn, huse⟩
    cases n with
    | invoke call block pos' =>
      cases huse
      exact ⟨call, block, hn, rfl⟩
    | _ => cases huse
  · rintro ⟨call, block, hmem, rfl⟩
    exact ⟨_, hmem, rfl⟩

theorem map_fst_uses (ns : List Node) :
    (uses ns).map Prod.fst = (nodesParts ns).filterMap Node.callName? := by
  rw [uses, List.map_filterMap]
  refine List.filterMap_congr fun n _ => ?_
  cases n <;> rfl

theorem map_snd_uses_sublist (ns : List Node) :
    ((uses ns).map Prod.snd).Sublist ((nodesParts ns).filterMap Node.place?) := by
  rw [uses, List.map_filterMap]
  induction nodesParts ns with
  | nil => exact .slnil
  | cons n ns ih =>
    rw [List.filterMap_cons, List.filterMap_cons]
    cases n with
    | text s => exact ih
    | output _ _ pos | cond _ _ _ _ pos | each _ _ _ pos => exact ih.cons pos
    | invoke call block pos => exact ih.cons_cons pos

theorem exists_pairs {α β γ : Type} {us : List (α × β)} {f : γ → β} {js : List γ}
    (h : us.map Prod.snd = js.map f) :
    ∃ vs : List (α × γ), us = vs.map (Prod.map id f) ∧ vs.map Prod.snd = js := by
  induction us generalizing js with
  | nil =>
    obtain rfl : js = [] := by simpa using h.symm
    exact ⟨[], rfl, rfl⟩
  | cons u us ih =>
    obtain ⟨j, ks, rfl, hj, hks⟩ := List.map_eq_cons_iff.mp h.symm
    obtain ⟨vs, rfl, rfl⟩ := ih hks.symm
    exact ⟨(u.1, j) :: vs, by simp [hj], rfl⟩

theorem exists_uses_offsets {text source : String} {firstLine : Nat} {t : Template}
    (h : parse text source firstLine = .ok t) :
    ∃ us : List (String × Nat), (us.map Prod.snd).Pairwise (· < ·) ∧
      (∀ u ∈ us, TagAt text.toList u.2) ∧
      uses t.nodes = us.map (Prod.map id (atOffset firstLine text.toList)) := by
  obtain ⟨ls, hls, hns, -⟩ := parse_eq_ok_iff.mp h
  obtain ⟨is, hinc, htag, hplaces⟩ := exists_offsets hls
  have hsub := (map_snd_uses_sublist t.nodes).trans (places_of_nodesOf hns)
  rw [hplaces] at hsub
  obtain ⟨js, hjs, hmap⟩ := List.sublist_map_iff.mp hsub
  obtain ⟨us, hus, rfl⟩ := exists_pairs hmap
  exact ⟨us, hinc.sublist hjs, fun u hu => htag _ (hjs.subset (List.mem_map_of_mem hu)), hus⟩

def UsedAt (text : List Char) (firstLine : Nat) (ns : List Node) (name : String) (i : Nat) : Prop :=
  TagAt text i ∧ ∃ call block,
    .invoke call block (atOffset firstLine text i) ∈ nodesParts ns ∧ call.name = name

/-- The names that a template gives as used are those in its calls, at any depth; each is there once;
and they are in the order of the tags at which they are first used. Each call stands at a tag. -/
theorem invocations_by_first_use {text source : String} {firstLine : Nat} {t : Template}
    (h : parse text source firstLine = .ok t) :
    (∀ name, name ∈ t.invocations ↔
        ∃ call block pos, .invoke call block pos ∈ nodesParts t.nodes ∧ call.name = name) ∧
      t.invocations.Nodup ∧
      (∀ call block pos, .invoke call block pos ∈ nodesParts t.nodes →
        ∃ i, UsedAt text.toList firstLine t.nodes call.name i ∧
          pos = atOffset firstLine text.toList i) ∧
      ∃ is : List Nat, is.Pairwise (· < ·) ∧
        List.Forall₂ (fun name i => IsLeast {j | UsedAt text.toList firstLine t.nodes name j} i)
          t.invocations is := by
  obtain ⟨us, hinc, htag, huses⟩ := exists_uses_offsets h
  have hinvocations : t.invocations = (us.map Prod.fst).foldl addName [] := by
    rw [invocations, nodesNames_eq, ← map_fst_uses, huses, List.map_map]
    rfl
  have hused (name : String) (j : Nat) :
      (name, j) ∈ us ↔ UsedAt text.toList firstLine t.nodes name j := by
    rw [UsedAt, ← mem_uses, huses, List.mem_map]
    constructor
    · exact fun hmem => ⟨htag _ hmem, _, hmem, rfl⟩
    · rintro ⟨hj, ⟨m, k⟩, hmem, heq⟩
      obtain ⟨rfl, hpos⟩ := Prod.mk.inj heq
      exact atOffset_inj (htag _ hmem) hj hpos ▸ hmem
  refine ⟨fun name => ?_, ?_, fun call block pos hmem => ?_, ?_⟩
  · rw [mem_invocations, ← map_fst_uses, List.mem_map]
    constructor
    · rintro ⟨⟨name, pos⟩, hmem, rfl⟩
      obtain ⟨call, block, hcall⟩ := mem_uses.mp hmem
      exact ⟨call, block, pos, hcall⟩
    · rintro ⟨call, block, pos, hcall⟩
      exact ⟨_, mem_uses.mpr ⟨call, block, hcall⟩, rfl⟩
  · rw [hinvocations]
    exact nodup_foldl_addName .nil _
  · have huse : (call.name, pos) ∈ uses t.nodes := mem_uses.mpr ⟨call, block, hmem, rfl⟩
    rw [huses, List.mem_map] at huse
    obtain ⟨⟨name, i⟩, hi, heq⟩ := huse
    cases heq
    exact ⟨i, (hused _ i).mp hi, rfl⟩
  · obtain ⟨is, hsub, hfirst⟩ := exists_first_offsets hinc
    refine ⟨is, hinc.sublist hsub, ?_⟩
    rw [hinvocations]
    simpa only [hused] using hfirst

def nestedCalls : String :=
  "\x7b\x7b> b\x7d\x7d\n\x7b\x7b#if x\x7d\x7d\x7b\x7b> a\x7d\x7d\x7b\x7b/if\x7d\x7d" ++
    "\x7b\x7b#> c\x7d\x7d\x7b\x7b> b\x7d\x7d\x7b\x7b> d\x7d\x7d\x7b\x7b/c\x7d\x7d"

theorem parse_nestedCalls :
    parse nestedCalls "s" 3 = .ok ⟨"s", [
      .invoke ⟨"b", none, []⟩ none ⟨3, 1⟩,
      .text "\n",
      .cond ⟨"x", .scope, ["x"]⟩ false [.invoke ⟨"a", none, []⟩ none ⟨4, 10⟩] [] ⟨4, 1⟩,
      .invoke ⟨"c", none, []⟩
        (some [.invoke ⟨"b", none, []⟩ none ⟨4, 32⟩, .invoke ⟨"d", none, []⟩ none ⟨4, 39⟩])
        ⟨4, 24⟩]⟩ := rfl

theorem invocations_by_first_use_nested :
    ∃ t, parse nestedCalls "s" 3 = .ok t ∧ t.invocations = ["b", "a", "c", "d"] ∧
      ∃ is : List Nat, is.Pairwise (· < ·) ∧
        List.Forall₂ (fun name i => IsLeast {j | UsedAt nestedCalls.toList 3 t.nodes name j} i)
          ["b", "a", "c", "d"] is :=
  ⟨_, parse_nestedCalls, rfl, (invocations_by_first_use parse_nestedCalls).2.2.2⟩

end Template

end StaticSite
