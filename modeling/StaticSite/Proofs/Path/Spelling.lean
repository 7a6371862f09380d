import StaticSite.Path.Extension
import StaticSite.Proofs.Text.Cut

namespace StaticSite

structure IsFileName (s : String) : Prop where
  ofSegment?_eq : Component.ofSegment? s = some (.name s)
  no_slash : '/' ∉ s.toList

instance (s : String) : Decidable (IsFileName s) :=
  decidable_of_iff (Component.ofSegment? s = some (.name s) ∧ '/' ∉ s.toList)
    ⟨fun h => ⟨h.1, h.2⟩, fun h => ⟨h.1, h.2⟩⟩

theorem Component.ofSegment?_name_iff {s : String} :
    ofSegment? s = some (.name s) ↔ s ≠ "" ∧ s ≠ "." ∧ s ≠ ".." := by
  unfold ofSegment?
  by_cases hempty : s = "" <;> by_cases hhere : s = "." <;> by_cases hup : s = ".." <;>
    simp [hempty, hhere, hup]

namespace Path

/-- No segment has a slash in it, as in every path that a text gives. -/
def Spelled (p : Path) : Prop := ∀ s ∈ p.segments, '/' ∉ s.toList

theorem spelled_segmentsOf (cs : List Char) : ∀ s ∈ segmentsOf cs, '/' ∉ s.toList := by
  intro s hs
  cases cs with
  | nil => cases hs
  | cons c cs =>
    obtain ⟨piece, hpiece, rfl⟩ := List.mem_map.mp hs
    simpa using Text.not_mem_of_mem_piecesFrom List.not_mem_nil hpiece

theorem spelled_ofText (s : String) : (ofText s).Spelled := by
  unfold ofText
  split <;> exact spelled_segmentsOf _

theorem spelled_ofNames {names : List String} (h : ∀ n ∈ names, IsFileName n) :
    (ofNames names).Spelled := fun n hn => (h n hn).no_slash

theorem ofText_intercalate {names : List String} (hne : names ≠ [])
    (h : ∀ n ∈ names, n ≠ "" ∧ '/' ∉ n.toList) : ofText ("/".intercalate names) = ofNames names := by
  have htext : ("/".intercalate names).toList = ['/'].intercalate (names.map String.toList) := by
    rw [String.toList_intercalate]
    rfl
  have hpieces : Text.pieces '/' ("/".intercalate names).toList = names.map String.toList := by
    rw [htext]
    refine Text.pieces_intercalate (by simpa using hne) fun f hf => ?_
    obtain ⟨n, hn, rfl⟩ := List.mem_map.mp hf
    exact (h n hn).2
  obtain ⟨n, ns, rfl⟩ := List.exists_cons_of_ne_nil hne
  obtain ⟨hn, hslash⟩ := h n List.mem_cons_self
  obtain ⟨c, cs, hcs⟩ := List.exists_cons_of_ne_nil (l := n.toList) (by simpa using hn)
  obtain ⟨rest, hrest⟩ : ∃ rest, ("/".intercalate (n :: ns)).toList = c :: rest := by
    cases ns <;> simp [hcs]
  rw [hrest] at hpieces
  unfold ofText
  rw [hrest]
  split
  · next heq =>
    obtain rfl := (List.cons.inj heq).1
    exact absurd (hcs ▸ List.mem_cons_self) hslash
  · simp [segmentsOf, hpieces, ofNames]

theorem exists_last_segment {s : String} (hrelative : (ofText s).isAbsolute = false)
    {w : List Char} (hne : w ≠ []) (hslash : '/' ∉ w) (h : w <:+ s.toList) :
    ∃ init last, (ofText s).segments = init ++ [last] ∧ w <:+ last.toList := by
  unfold ofText at hrelative ⊢
  split at hrelative
  · cases hrelative
  · obtain ⟨init, last, hpieces, hlast⟩ := @Text.exists_last_piece '/' [] s.toList w hslash h
    refine ⟨init.map String.ofList, String.ofList last, ?_, by simpa using hlast⟩
    obtain ⟨c, cs, hcs⟩ := List.exists_cons_of_ne_nil (l := s.toList) (by
      rintro hnil
      exact hne (by simpa [hnil] using h))
    rw [hcs] at hpieces ⊢
    simp [segmentsOf, Text.pieces, hpieces]

theorem openSegments_subset (p : Path) : p.openSegments ⊆ p.segments := by
  unfold openSegments
  split
  · exact List.dropLast_subset _
  · exact List.Subset.refl _

theorem join_ofNames_concat (p : Path) (init : List String) (last : String) :
    ∃ start, (p.join (ofNames (init ++ [last]))).segments = start ++ [last] := by
  unfold Path.join ofNames
  split
  · exact ⟨init, rfl⟩
  · split
    · exact ⟨init, rfl⟩
    · exact ⟨p.openSegments ++ init, by simp⟩

theorem Spelled.join {p q : Path} (hp : p.Spelled) (hq : q.Spelled) : (p.join q).Spelled := by
  unfold Path.join
  split
  · exact hq
  · split
    · exact hq
    · intro s hs
      obtain hs | hs := List.mem_append.mp hs
      · exact hp s (p.openSegments_subset hs)
      · split at hs
        · obtain rfl := List.mem_singleton.mp hs
          simp
        · exact hq s hs

end Path

end StaticSite
