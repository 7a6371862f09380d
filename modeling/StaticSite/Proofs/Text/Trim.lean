import Mathlib.Data.List.Infix
import Mathlib.Data.List.TakeWhile
import StaticSite.Text.Space

namespace StaticSite.Text

theorem isPrefix_trimRight : (cs : List Char) → trimRight cs <+: cs
  | [] => List.prefix_rfl
  | c :: cs => by
    have ih := isPrefix_trimRight cs
    rw [trimRight]
    split
    · split
      · exact List.nil_prefix
      · exact ⟨cs, rfl⟩
    · next hne => exact List.cons_prefix_cons.mpr ⟨rfl, ih⟩

theorem isSuffix_trimLeft (cs : List Char) : trimLeft cs <:+ cs := List.dropWhile_suffix _

theorem isInfix_trimChars (cs : List Char) : trimChars cs <:+: cs :=
  (isPrefix_trimRight _).isInfix.trans (isSuffix_trimLeft cs).isInfix

theorem trimRight_eq {cs : List Char} (h : ∀ c ∈ cs.getLast?, isSpace c = false) :
    trimRight cs = cs := by
  induction cs with
  | nil => rfl
  | cons c cs ih =>
    cases cs with
    | nil => simpa [trimRight] using h
    | cons d ds =>
      rw [trimRight, ih (by simpa using h)]

theorem trimChars_eq {cs : List Char} (hhead : ∀ c ∈ cs.head?, isSpace c = false)
    (hlast : ∀ c ∈ cs.getLast?, isSpace c = false) : trimChars cs = cs := by
  have hleft : trimLeft cs = cs := by
    cases cs with
    | nil => rfl
    | cons c cs => simp [trimLeft, hhead c rfl]
  rw [trimChars, hleft, trimRight_eq hlast]

theorem trimChars_cons {c : Char} (hc : isSpace c) (cs : List Char) :
    trimChars (c :: cs) = trimChars cs := by
  simp [trimChars, trimLeft, hc]

theorem trimRight_concat {c : Char} (hc : isSpace c) (cs : List Char) :
    trimRight (cs ++ [c]) = trimRight cs := by
  induction cs with
  | nil => simp [trimRight, hc]
  | cons d cs ih => rw [List.cons_append, trimRight, trimRight, ih]

theorem trimChars_concat {c : Char} (hc : isSpace c) (cs : List Char) :
    trimChars (cs ++ [c]) = trimChars cs := by
  rw [trimChars, trimLeft, List.dropWhile_append]
  split
  · next hnil => simp [trimChars, trimLeft, List.isEmpty_iff.mp hnil, hc]
  · exact trimRight_concat hc _

theorem trimRight_eq_nil_iff {cs : List Char} : trimRight cs = [] ↔ ∀ c ∈ cs, isSpace c = true := by
  induction cs with
  | nil => simp [trimRight]
  | cons c cs ih =>
    rw [trimRight, List.forall_mem_cons, ← ih]
    cases hrest : trimRight cs with
    | nil => by_cases hc : isSpace c = true <;> simp [hc]
    | cons d ds => simp

theorem trimChars_eq_nil_iff {cs : List Char} : trimChars cs = [] ↔ ∀ c ∈ cs, isSpace c = true := by
  rw [trimChars, trimRight_eq_nil_iff]
  constructor
  · intro h c hc
    rw [← List.takeWhile_append_dropWhile (p := isSpace) (l := cs)] at hc
    exact (List.mem_append.mp hc).elim List.mem_takeWhile_imp (h c)
  · exact fun h c hc => h c ((isSuffix_trimLeft cs).subset hc)

theorem trim_eq_empty_iff {s : String} : trim s = "" ↔ isBlank s = true := by
  simp [trim, trimChars_eq_nil_iff, isBlank]

end StaticSite.Text
