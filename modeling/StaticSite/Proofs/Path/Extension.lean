import Mathlib.Data.List.Induction
import Mathlib.Data.List.TakeWhile
import StaticSite.Proofs.Path.Spelling

namespace StaticSite.Path

theorem splitName_eq_some {name stem ext : String} (h : splitName name = (stem, some ext)) :
    name = stem ++ "." ++ ext ∧ stem ≠ "" := by
  have hsplit := List.takeWhile_append_dropWhile (p := (· ≠ '.')) (l := name.toList.reverse)
  unfold splitName at h
  simp only at h
  split at h
  · cases h
  · cases h
  · next c rest hne hrev =>
    obtain rfl : c = '.' := by
      have hhead := List.head?_dropWhile_not (· ≠ '.') name.toList.reverse
      rw [hrev] at hhead
      simpa using hhead
    cases h
    rw [hrev] at hsplit
    have hname : name.toList = rest.reverse ++
        '.' :: (name.toList.reverse.takeWhile (· ≠ '.')).reverse := by
      simpa only [List.reverse_append, List.reverse_reverse, List.reverse_cons, List.append_assoc,
        List.singleton_append] using congrArg List.reverse hsplit.symm
    refine ⟨String.toList_injective ?_, fun hstem => hne rfl ?_⟩
    · simpa using hname
    · simpa using congrArg String.toList hstem

theorem splitName_dot {stem : String} (h : stem ≠ "") :
    splitName (stem ++ ".") = (stem, some "") := by
  have hstem : stem.toList.reverse ≠ [] := by simpa using h
  unfold splitName
  have hrev : (stem ++ ".").toList.reverse = '.' :: stem.toList.reverse := by simp
  simp only [hrev]
  cases hs : stem.toList.reverse with
  | nil => exact absurd hs hstem
  | cons c cs =>
    have : stem.toList = (c :: cs).reverse := by rw [← hs, List.reverse_reverse]
    simp [← this]

section Names

variable {init : List String} {last : String}

theorem components_ofNames {names : List String} (h : "." ∉ names) :
    (ofNames names).components = names.filterMap Component.ofSegment? := by
  cases names with
  | nil => rfl
  | cons n ns =>
    have hn : n ≠ "." := fun heq => h (by simp [heq])
    unfold components ofNames
    split
    · cases ‹false = true›
    · simp only
      split
      · next heq => exact absurd (List.cons.inj heq).1 hn
      · rfl

theorem fileName?_ofNames (h : "." ∉ init) (hlast : Component.ofSegment? last = some (.name last)) :
    (ofNames (init ++ [last])).fileName? = some last := by
  have hdot : "." ∉ init ++ [last] := by
    simp [h, (Component.ofSegment?_name_iff.mp hlast).2.1.symm]
  simp [fileName?, components_ofNames hdot, hlast]

theorem fileName?_ofNames_up (h : "." ∉ init) : (ofNames (init ++ [".."])).fileName? = none := by
  have hdot : "." ∉ init ++ [".."] := by simp [h]
  simp [fileName?, components_ofNames hdot, Component.ofSegment?]

theorem setExtension_ofNames (h : "." ∉ init)
    (hlast : Component.ofSegment? last = some (.name last)) {ext : String} (hext : ext ≠ "") :
    (ofNames (init ++ [last])).setExtension ext =
      ofNames (init ++ [(splitName last).1 ++ "." ++ ext]) := by
  have hmeant : (ofNames (init ++ [last])).meantReverse (init ++ [last]).reverse =
      last :: init.reverse := by
    simp [meantReverse, isMeant, hlast]
  unfold setExtension
  rw [fileName?_ofNames h hlast]
  simp only [ofNames] at hmeant ⊢
  rw [hmeant]
  simp [hext]

theorem setExtension_ofNames_up (h : "." ∉ init) (ext : String) :
    (ofNames (init ++ [".."])).setExtension ext = ofNames (init ++ [".."]) := by
  rw [setExtension, fileName?_ofNames_up h]

theorem intercalate_append_last (a b : String) :
    "/".intercalate (init ++ [a ++ b]) = "/".intercalate (init ++ [a]) ++ b := by
  by_cases h : init = []
  · simp [h]
  · simp [String.intercalate_append_of_ne_nil h, String.append_assoc]

theorem take_append (a b : String) :
    String.ofList ((a ++ b).toList.take ((a ++ b).toList.length - b.length)) = a := by
  rw [String.toList_append, List.length_append, ← String.length_toList, Nat.add_sub_cancel,
    List.take_left, String.ofList_toList]

theorem not_dot_mem {names : List String} (h : ∀ n ∈ names, IsFileName n) : "." ∉ names :=
  fun hdot => by simpa [Component.ofSegment?] using (h _ hdot).ofSegment?_eq

theorem withExtension_ofNames (hinit : ∀ n ∈ init, IsFileName n) (hlast : IsFileName last)
    {stem old : String} (hsplit : splitName last = (stem, some old)) (ext : String) :
    (ofNames (init ++ [last])).withExtension ext =
      (ofNames (init ++ [stem ++ "."])).setExtension ext := by
  obtain ⟨rfl, hstem⟩ := splitName_eq_some hsplit
  have hdot := not_dot_mem hinit
  have hext : (ofNames (init ++ [stem ++ "." ++ old])).extension? = some old := by
    rw [extension?, fileName?_ofNames hdot hlast.ofSegment?_eq, Option.bind_some, hsplit]
  have htext : (ofNames (init ++ [stem ++ "." ++ old])).text =
      "/".intercalate (init ++ [stem ++ "."]) ++ old := by
    simp [Path.text, ofNames, intercalate_append_last]
  unfold withExtension
  rw [hext]
  simp only [htext, take_append]
  rw [ofText_intercalate (by simp)]
  intro n hn
  obtain hn | hn := List.mem_append.mp hn
  · exact ⟨(Component.ofSegment?_name_iff.mp (hinit n hn).ofSegment?_eq).1, (hinit n hn).no_slash⟩
  · obtain rfl := List.mem_singleton.mp hn
    have hslash := hlast.no_slash
    simp only [String.toList_append, List.mem_append, not_or] at hslash
    exact ⟨by simp, by simp [hslash.1.1]⟩

end Names

theorem isFileName_dot {stem ext : String} (hstem : stem ≠ "") (hext : ext ≠ "")
    (hslash : '/' ∉ stem.toList) (hslash' : '/' ∉ ext.toList) : IsFileName (stem ++ "." ++ ext) := by
  obtain ⟨c, cs, hcs⟩ := List.exists_cons_of_ne_nil (l := stem.toList) (by simpa using hstem)
  have htext : (stem ++ "." ++ ext).toList = c :: (cs ++ '.' :: ext.toList) := by simp [hcs]
  refine ⟨Component.ofSegment?_name_iff.mpr ⟨by simp, fun h => ?_, fun h => ?_⟩, ?_⟩
  · rw [h] at htext
    simp at htext
  · rw [h] at htext
    obtain ⟨-, hrest⟩ : '.' = c ∧ ['.'] = cs ++ '.' :: ext.toList := by simpa using htext
    simp [eq_comm (a := ['.']), List.append_eq_singleton_iff, hext] at hrest
  · simp [hslash, hslash']

theorem splitName_eq_none {name : String} (h : (splitName name).2 = none) :
    (splitName name).1 = name := by
  unfold splitName at h ⊢
  simp only at h ⊢
  split at h
  · rfl
  · rfl
  · cases h

theorem withExtension_concat {init : List String} {last : String}
    (hinit : ∀ n ∈ init, IsFileName n) (hlast : IsFileName last) {ext : String} (hext : ext ≠ "")
    (hslash : '/' ∉ ext.toList) :
    (ofNames (init ++ [last])).withExtension ext = ofNames (init ++ [".."]) ∨
      ∃ stem, IsFileName (stem ++ "." ++ ext) ∧
        (ofNames (init ++ [last])).withExtension ext = ofNames (init ++ [stem ++ "." ++ ext]) := by
  have hdot : "." ∉ init := not_dot_mem hinit
  have hold : (ofNames (init ++ [last])).extension? = (splitName last).2 := by
    rw [extension?, fileName?_ofNames hdot hlast.ofSegment?_eq, Option.bind_some]
  cases hsplit : (splitName last).2 with
  | none =>
    have hname : last ≠ "" := (Component.ofSegment?_name_iff.mp hlast.ofSegment?_eq).1
    refine .inr ⟨last, isFileName_dot hname hext hlast.no_slash hslash, ?_⟩
    unfold withExtension
    rw [hold, hsplit]
    simp only
    rw [setExtension_ofNames hdot hlast.ofSegment?_eq hext, splitName_eq_none hsplit]
  | some old =>
    obtain ⟨heq, hstem⟩ := splitName_eq_some (Prod.ext rfl hsplit)
    generalize hsplit' : splitName last = split at heq hstem hsplit
    obtain ⟨stem, _⟩ := split
    cases hsplit
    -- What is left of the name once the old extension is cut off ends in a dot.
    rw [withExtension_ofNames hinit hlast hsplit']
    by_cases hup : stem = "."
    · subst hup
      exact .inl (setExtension_ofNames_up hdot ext)
    · have hname : Component.ofSegment? (stem ++ ".") = some (.name (stem ++ ".")) := by
        refine Component.ofSegment?_name_iff.mpr ⟨by simp, fun h => hstem ?_, fun h => hup ?_⟩
        · exact String.append_left_inj "." |>.mp (h.trans (String.empty_append).symm)
        · exact String.append_left_inj "." |>.mp h
      refine .inr ⟨stem, ?_, ?_⟩
      · have hstemSlash : '/' ∉ stem.toList := by
          have hlastSlash := hlast.no_slash
          simp only [heq, String.toList_append, List.mem_append, not_or] at hlastSlash
          exact hlastSlash.1.1
        exact isFileName_dot hstem hext hstemSlash hslash
      · rw [setExtension_ofNames hdot hname hext, splitName_dot hstem]

theorem withExtension_cases {names : List String} (h : ∀ n ∈ names, IsFileName n)
    (hsome : (ofNames names).extension?.isSome) {ext : String} (hext : ext ≠ "")
    (hslash : '/' ∉ ext.toList) :
    ∃ init, (∀ n ∈ init, IsFileName n) ∧
      ((ofNames names).withExtension ext = ofNames (init ++ [".."]) ∨
        ∃ stem, IsFileName (stem ++ "." ++ ext) ∧
          (ofNames names).withExtension ext = ofNames (init ++ [stem ++ "." ++ ext])) := by
  cases names using List.reverseRecOn with
  | nil => cases hsome
  | append_singleton init last =>
    have hinit : ∀ n ∈ init, IsFileName n := fun n hn => h n (List.mem_append_left _ hn)
    exact ⟨init, hinit, withExtension_concat hinit (h last (by simp)) hext hslash⟩

end StaticSite.Path
