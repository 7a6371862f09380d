import Mathlib.Data.List.Infix
import StaticSite.Html.Attributes

namespace StaticSite.Html

def entities : List (List Char) :=
  [['&', 'a', 'm', 'p', ';'], ['&', 'l', 't', ';'], ['&', 'g', 't', ';'],
   ['&', 'q', 'u', 'o', 't', ';'], ['&', '#', '3', '9', ';']]

structure Inert (cs : List Char) : Prop where
  no_delimiter : ∀ c ∈ cs, c ∉ ['<', '>', '"', '\x27']
  entity : ∀ rest, '&' :: rest <:+ cs → ∃ e ∈ entities, e <+: '&' :: rest

theorem inert_nil : Inert [] := ⟨by simp, by simp⟩

theorem Inert.cons {c : Char} {cs : List Char} (h : Inert cs)
    (hc : c ∉ ['&', '<', '>', '"', '\x27']) : Inert (c :: cs) := by
  rw [List.mem_cons, not_or] at hc
  constructor
  · intro d hd
    obtain rfl | hd := List.mem_cons.mp hd
    · exact hc.2
    · exact h.no_delimiter d hd
  · intro rest hrest
    rw [List.suffix_cons_iff] at hrest
    obtain heq | hrest := hrest
    · cases heq
      exact absurd rfl hc.1
    · exact h.entity rest hrest

theorem Inert.entity_append {e cs : List Char} (h : Inert cs) (he : e ∈ entities) :
    Inert (e ++ cs) := by
  constructor
  · intro d hd
    obtain hd | hd := List.mem_append.mp hd
    · have hall : (entities.flatten.all fun d => d ∉ ['<', '>', '"', '\x27']) = true := by decide
      simpa using List.all_eq_true.mp hall d (List.mem_flatten_of_mem he hd)
    · exact h.no_delimiter d hd
  · intro rest hrest
    have hinner : '&' :: rest = e ++ cs ∨ '&' :: rest <:+ cs := by
      simp only [entities, List.mem_cons, List.not_mem_nil, or_false] at he
      obtain rfl | rfl | rfl | rfl | rfl := he <;>
        simpa [List.suffix_cons_iff] using hrest
    obtain heq | hrest := hinner
    · exact ⟨e, he, heq ▸ List.prefix_append e cs⟩
    · exact h.entity rest hrest

theorem inert_escapeChars (cs : List Char) : Inert (escapeChars cs) := by
  induction cs with
  | nil => exact inert_nil
  | cons c cs ih =>
    change Inert (escapeChar c ++ escapeChars cs)
    unfold escapeChar
    split
    · exact ih.entity_append (by decide)
    split
    · exact ih.entity_append (by decide)
    split
    · exact ih.entity_append (by decide)
    split
    · exact ih.entity_append (by decide)
    split
    · exact ih.entity_append (by decide)
    · next hamp hlt hgt hquot hapos =>
      exact ih.cons (by simp [hamp, hlt, hgt, hquot, hapos])

theorem inert_escape (s : String) : Inert (escape s).toList := by
  simpa [escape] using inert_escapeChars s.toList

theorem isAttributeName_of_mem_accessibleNames {key name : String}
    (h : (key, name) ∈ accessibleNames) : isAttributeName name = true := by
  have hall : ∀ k ∈ accessibleNames, isAttributeName k.2 = true := by decide +kernel
  exact hall _ h

theorem isAttributeName_of_mem_accessible {config : Props} {name : String} {v : Option String}
    (h : (name, v) ∈ accessible config) : isAttributeName name = true := by
  unfold accessible at h
  split at h
  · obtain ⟨⟨key, name'⟩, hmem, hv⟩ := List.mem_filterMap.mp h
    obtain ⟨value, -, heq⟩ := Option.map_eq_some_iff.mp hv
    cases heq
    exact isAttributeName_of_mem_accessibleNames hmem
  · cases h

theorem isAttributeName_of_mem_extra {config : Props} {name : String} {v : Option String}
    (h : (name, v) ∈ extra config) : isAttributeName name = true := by
  unfold extra at h
  split at h
  · obtain ⟨⟨key, value⟩, -, hv⟩ := List.mem_filterMap.mp h
    dsimp only at hv
    split at hv
    · next hname =>
      obtain ⟨w, -, heq⟩ := Option.map_eq_some_iff.mp hv
      cases heq
      exact hname
    · cases hv
  · cases h

theorem not_mem_of_isAttributeName {name : String} (h : isAttributeName name = true) {c : Char}
    (hc : c ∈ ['<', '>', '"', '\x27', '&', ' ', '=']) : c ∉ name.toList := by
  have hfirst : (['<', '>', '"', '\x27', '&', ' ', '='].all fun d =>
      !(d.isAlpha || d = '_' || d = '@' || d = ':')) = true := by decide
  have hlater : (['<', '>', '"', '\x27', '&', ' ', '='].all fun d =>
      !(d.isAlphanum || d = '-' || d = '_' || d = ':' || d = '.' || d = '@')) = true := by decide
  replace hfirst := Bool.not_eq_true' _ |>.mp (List.all_eq_true.mp hfirst c hc)
  replace hlater := Bool.not_eq_true' _ |>.mp (List.all_eq_true.mp hlater c hc)
  unfold isAttributeName at h
  split at h
  · cases h
  · next d ds hname =>
    rw [Bool.and_eq_true, List.all_eq_true] at h
    rw [hname, List.mem_cons, not_or]
    constructor
    · rintro rfl
      exact absurd h.1 (by simp [hfirst])
    · intro hmem
      exact absurd (h.2 c hmem) (by simp [hlater])

end StaticSite.Html
