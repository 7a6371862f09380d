import Mathlib.Logic.Relation
import StaticSite.Proofs.Path.Place

/-! Paths with more dots than they need, which lead to the same places. -/

namespace StaticSite.Path

/-- The second path has a dot more than the first, or a way into a directory and out of it again. An
empty path, which leads nowhere, has no such spelling. -/
inductive Inserts : Path → Path → Prop
  | here {absolute : Bool} {before after : List String}
    (h : isEmpty ⟨absolute, before ++ after⟩ = false) :
    Inserts ⟨absolute, before ++ after⟩ ⟨absolute, before ++ "." :: after⟩
  | detour {absolute : Bool} {before after : List String} {name : String}
    (h : isEmpty ⟨absolute, before ++ after⟩ = false)
    (hname : Component.ofSegment? name = some (.name name)) :
    Inserts ⟨absolute, before ++ after⟩ ⟨absolute, before ++ name :: ".." :: after⟩

def Respelled : Path → Path → Prop := Relation.ReflTransGen Inserts

structure LeadsAs (p q : Path) : Prop where
  isAbsolute_eq : q.isAbsolute = p.isAbsolute
  isEmpty_eq : q.isEmpty = p.isEmpty
  foldl_eq : ∀ place, q.segments.foldl Place.follow place = p.segments.foldl Place.follow place

namespace LeadsAs

variable {p p' q q' r : Path}

theorem refl (p : Path) : p.LeadsAs p := ⟨rfl, rfl, fun _ => rfl⟩

theorem trans (h : p.LeadsAs q) (h' : q.LeadsAs r) : p.LeadsAs r where
  isAbsolute_eq := h'.isAbsolute_eq.trans h.isAbsolute_eq
  isEmpty_eq := h'.isEmpty_eq.trans h.isEmpty_eq
  foldl_eq place := (h'.foldl_eq place).trans (h.foldl_eq place)

theorem normalize?_eq (h : p.LeadsAs q) (cwd : Place) : q.normalize? cwd = p.normalize? cwd := by
  rw [normalize?, normalize?, foldl_components, foldl_components, h.isEmpty_eq, h.foldl_eq, origin,
    origin, h.isAbsolute_eq]

theorem join (h : p.LeadsAs p') (h' : q.LeadsAs q') : (p.join q).LeadsAs (p'.join q') := by
  cases hq : q.isAbsolute with
  | true =>
    have hq' : q'.isAbsolute = true := h'.isAbsolute_eq.trans hq
    rwa [join_of_isAbsolute p hq, join_of_isAbsolute p' hq']
  | false =>
    have hq' : q'.isAbsolute = false := h'.isAbsolute_eq.trans hq
    refine ⟨?_, ?_, fun place => ?_⟩
    · rw [isAbsolute_join p hq, isAbsolute_join p' hq', h.isAbsolute_eq]
    · rw [isEmpty_join, isEmpty_join, h.isEmpty_eq, h'.isEmpty_eq]
    · rw [foldl_join p hq, foldl_join p' hq', h.foldl_eq, h'.foldl_eq]

end LeadsAs

theorem follow_up_of_name {name : String} (h : Component.ofSegment? name = some (.name name))
    (place : Place) : (place.follow name).follow ".." = place := by
  rw [Place.follow_of_name h]
  exact List.dropLast_concat

theorem Inserts.leadsAs {p q : Path} (h : p.Inserts q) : p.LeadsAs q := by
  cases h with
  | here h =>
    refine ⟨rfl, by rw [h]; simp [isEmpty], fun place => ?_⟩
    rw [List.foldl_append, List.foldl_append]
    rfl
  | detour h hname =>
    refine ⟨rfl, by rw [h]; simp [isEmpty], fun place => ?_⟩
    rw [List.foldl_append, List.foldl_append, List.foldl_cons, List.foldl_cons,
      follow_up_of_name hname]

theorem Respelled.leadsAs {p q : Path} (h : p.Respelled q) : p.LeadsAs q := by
  induction h with
  | refl => exact .refl p
  | tail _ hstep ih => exact ih.trans hstep.leadsAs

end StaticSite.Path
