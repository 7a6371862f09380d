import Mathlib.Data.List.Infix
import StaticSite.Text.Cut

namespace StaticSite.Text

variable {cs a b : List Char}

theorem cutWhere_eq_some_iff {p : Char → Bool} :
    cutWhere p cs = some (a, b) ↔ ∃ c, cs = a ++ c :: b ∧ p c = true ∧ ∀ d ∈ a, p d = false := by
  induction cs generalizing a with
  | nil => simp [cutWhere]
  | cons c cs ih =>
    rw [cutWhere]
    by_cases hc : p c = true
    · rw [if_pos hc]
      constructor
      · rintro h
        cases h
        exact ⟨c, rfl, hc, nofun⟩
      · rintro ⟨d, heq, hd, ha⟩
        cases a with
        | nil =>
          obtain ⟨rfl, rfl⟩ := List.cons.inj heq
          rfl
        | cons x a =>
          obtain ⟨rfl, -⟩ := List.cons.inj heq
          exact absurd hc (by simp [ha c List.mem_cons_self])
    · rw [if_neg hc, Option.map_eq_some_iff]
      constructor
      · rintro ⟨⟨a', b'⟩, hcut, heq⟩
        cases heq
        obtain ⟨d, rfl, hd, ha⟩ := ih.mp hcut
        exact ⟨d, rfl, hd, List.forall_mem_cons.mpr ⟨by simpa using hc, ha⟩⟩
      · rintro ⟨d, heq, hd, ha⟩
        cases a with
        | nil =>
          obtain ⟨rfl, -⟩ := List.cons.inj heq
          exact absurd hd hc
        | cons x a =>
          obtain ⟨rfl, rfl⟩ := List.cons.inj heq
          exact ⟨(a, b), ih.mpr ⟨d, rfl, hd, fun e he => ha e (List.mem_cons_of_mem _ he)⟩, rfl⟩

theorem eq_append_of_cutAt {mark : List Char} (h : cutAt mark cs = some (a, b)) :
    cs = a ++ (mark ++ b) := by
  induction cs generalizing a with
  | nil =>
    rw [cutAt] at h
    split at h
    · next hmark =>
      cases h
      simpa using hmark
    · cases h
  | cons c cs ih =>
    rw [cutAt] at h
    split at h
    · next hmark =>
      cases h
      rw [List.nil_append]
      exact (List.prefix_iff_eq_append.mp (List.isPrefixOf_iff_prefix.mp hmark)).symm
    · obtain ⟨⟨a', b'⟩, hcut, heq⟩ := Option.map_eq_some_iff.mp h
      cases heq
      rw [ih hcut, List.cons_append]

theorem not_infix_of_cutAt {mark : List Char} (hmark : mark ≠ [])
    (h : cutAt mark cs = some (a, b)) :
    ¬mark <:+: a := by
  induction cs generalizing a with
  | nil => simp [cutAt, hmark] at h
  | cons c cs ih =>
    rw [cutAt] at h
    split at h
    · cases h
      simpa using hmark
    · next hprefix =>
      obtain ⟨⟨a', b'⟩, hcut, heq⟩ := Option.map_eq_some_iff.mp h
      cases heq
      rw [List.infix_cons_iff, not_or]
      refine ⟨fun hstart => hprefix (List.isPrefixOf_iff_prefix.mpr (hstart.trans ?_)), ih hcut⟩
      rw [eq_append_of_cutAt hcut]
      exact List.prefix_append (c :: a') _

theorem cutAt_append {c d : Char} (hne : c ≠ d) (h : ¬[c, d] <:+: a) (b : List Char) :
    cutAt [c, d] (a ++ c :: d :: b) = some (a, b) := by
  induction a with
  | nil => simp [cutAt]
  | cons x a ih =>
    rw [List.infix_cons_iff, not_or] at h
    have hprefix : ¬[c, d] <+: x :: (a ++ c :: d :: b) := by
      intro hstart
      obtain ⟨rfl, hnext⟩ := List.cons_prefix_cons.mp hstart
      cases a with
      | nil => exact hne (List.cons_prefix_cons.mp hnext).1.symm
      | cons y a =>
        obtain ⟨rfl, -⟩ := List.cons_prefix_cons.mp hnext
        exact h.1 ⟨a, rfl⟩
    rw [List.cons_append, cutAt, if_neg (mt List.isPrefixOf_iff_prefix.mp hprefix), ih h.2]
    rfl

section Pieces

variable {sep : Char}

theorem piecesFrom_of_not_mem {piece cs : List Char} (h : sep ∉ cs) :
    piecesFrom sep piece cs = [piece.reverse ++ cs] := by
  induction cs generalizing piece with
  | nil => simp [piecesFrom]
  | cons c cs ih =>
    rw [List.mem_cons, not_or] at h
    rw [piecesFrom, if_neg (Ne.symm h.1), ih h.2]
    simp

theorem piecesFrom_append {piece cs : List Char} (h : sep ∉ cs) (rest : List Char) :
    piecesFrom sep piece (cs ++ sep :: rest) = (piece.reverse ++ cs) :: piecesFrom sep [] rest := by
  induction cs generalizing piece with
  | nil => simp [piecesFrom]
  | cons c cs ih =>
    rw [List.mem_cons, not_or] at h
    rw [List.cons_append, piecesFrom, if_neg (Ne.symm h.1), ih h.2]
    simp

theorem not_mem_of_mem_piecesFrom {piece cs p : List Char} (hpiece : sep ∉ piece)
    (hp : p ∈ piecesFrom sep piece cs) : sep ∉ p := by
  induction cs generalizing piece with
  | nil =>
    rw [piecesFrom, List.mem_singleton] at hp
    simpa [hp] using hpiece
  | cons c cs ih =>
    rw [piecesFrom] at hp
    split at hp
    · obtain rfl | hp := List.mem_cons.mp hp
      · simpa using hpiece
      · exact ih List.not_mem_nil hp
    · next hc => exact ih (by simp [Ne.symm hc, hpiece]) hp

theorem exists_last_piece {piece cs w : List Char} (hw : sep ∉ w) (h : w <:+ piece.reverse ++ cs) :
    ∃ init last, piecesFrom sep piece cs = init ++ [last] ∧ w <:+ last := by
  induction cs generalizing piece with
  | nil => exact ⟨[], piece.reverse, rfl, by simpa using h⟩
  | cons c cs ih =>
    rw [piecesFrom]
    split
    · next hc =>
      subst hc
      have hrest : w <:+ cs := by
        obtain hshort | hlong := List.suffix_or_suffix_of_suffix h (List.suffix_append _ (c :: cs))
        · obtain rfl | hrest := List.suffix_cons_iff.mp hshort
          · exact absurd List.mem_cons_self hw
          · exact hrest
        · exact absurd (hlong.subset List.mem_cons_self) hw
      obtain ⟨init, last, hpieces, hlast⟩ := @ih [] (by simpa using hrest)
      exact ⟨piece.reverse :: init, last, by simp [hpieces], hlast⟩
    · exact ih (by simpa using h)

theorem pieces_intercalate {fs : List (List Char)} (hne : fs ≠ []) (h : ∀ f ∈ fs, sep ∉ f) :
    pieces sep ([sep].intercalate fs) = fs := by
  induction fs with
  | nil => exact absurd rfl hne
  | cons f fs ih =>
    rw [List.forall_mem_cons] at h
    cases fs with
    | nil => simpa [pieces] using @piecesFrom_of_not_mem sep [] f h.1
    | cons g gs =>
      have hjoin : [sep].intercalate (f :: g :: gs) = f ++ sep :: [sep].intercalate (g :: gs) := by
        simp [List.intercalate_cons_of_ne_nil]
      rw [pieces, hjoin, piecesFrom_append h.1, ← pieces, ih (by simp) h.2]
      rfl

end Pieces

theorem length_piecesFrom (sep : Char) (piece cs : List Char) :
    (piecesFrom sep piece cs).length = cs.count sep + 1 := by
  induction cs generalizing piece with
  | nil => rfl
  | cons c cs ih =>
    rw [piecesFrom, List.count_cons]
    split <;> simp [*]

theorem length_pieces (sep : Char) (cs : List Char) :
    (pieces sep cs).length = cs.count sep + 1 := length_piecesFrom sep [] cs

theorem linesFrom_append (line a b : List Char) :
    linesFrom line (a ++ '\n' :: b) = (piecesFrom '\n' line a).map (· ++ ['\n']) ++ lines b := by
  induction a generalizing line with
  | nil => simp [linesFrom, piecesFrom, lines]
  | cons c a ih =>
    rw [List.cons_append, linesFrom, piecesFrom]
    split
    · next hc => simp [ih, hc]
    · exact ih (c :: line)

theorem lines_append (a b : List Char) :
    lines (a ++ '\n' :: b) = (pieces '\n' a).map (· ++ ['\n']) ++ lines b :=
  linesFrom_append [] a b

theorem linesFrom_ends {line cs a b : List Char} {before after : List (List Char)}
    (h : linesFrom line cs = before ++ a :: b :: after) : ['\n'] <:+ a := by
  induction cs generalizing line before with
  | nil =>
    rw [linesFrom] at h
    have hlen := congrArg List.length h
    split at hlen <;> simp at hlen
    omega
  | cons c cs ih =>
    rw [linesFrom] at h
    split at h
    · next hc =>
      cases before with
      | nil =>
        obtain ⟨rfl, -⟩ := List.cons.inj h
        simp [hc]
      | cons l before => exact ih (List.cons.inj h).2
    · exact ih h

end StaticSite.Text
