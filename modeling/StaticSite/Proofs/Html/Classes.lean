import Mathlib.Data.List.Nodup
import StaticSite.Html.Classes
import StaticSite.Proofs.Template.Words
import StaticSite.Proofs.Text.Kebab

namespace StaticSite

namespace Text

def Unspaced (s : String) : Prop := ∀ c ∈ s.toList, isSpace c = false

instance (s : String) : Decidable (Unspaced s) :=
  List.decidableBAll (fun c => isSpace c = false) s.toList

@[simp] theorem unspaced_append {s t : String} : Unspaced (s ++ t) ↔ Unspaced s ∧ Unspaced t := by
  simp [Unspaced, or_imp, forall_and]

theorem wordsFrom_append {cs : List Char} (h : ∀ c ∈ cs, isSpace c = false)
    (word rest : List Char) : wordsFrom word (cs ++ rest) = wordsFrom (cs.reverse ++ word) rest := by
  induction cs generalizing word with
  | nil => rfl
  | cons c cs ih =>
    obtain ⟨hc, hcs⟩ := List.forall_mem_cons.mp h
    simp [wordsFrom, hc, ih hcs]

theorem of_mem_wordsFrom {word cs w : List Char} (hword : ∀ c ∈ word, isSpace c = false)
    (h : w ∈ wordsFrom word cs) : ∀ c ∈ w, isSpace c = false := by
  induction cs generalizing word with
  | nil =>
    cases word with
    | nil => cases h
    | cons d word =>
      obtain rfl := List.mem_singleton.mp h
      exact fun c hc => hword c (List.mem_reverse.mp hc)
  | cons d cs ih =>
    rw [wordsFrom] at h
    split at h
    · split at h
      · exact ih (by simp) h
      · obtain rfl | h := List.mem_cons.mp h
        · exact fun c hc => hword c (List.mem_reverse.mp hc)
        · exact ih (by simp) h
    · next hd => exact ih (List.forall_mem_cons.mpr ⟨by simpa using hd, hword⟩) h

theorem unspaced_of_mem_words {s w : String} (h : w ∈ words s) : Unspaced w := by
  obtain ⟨cs, hcs, rfl⟩ := List.mem_map.mp h
  simpa [Unspaced] using of_mem_wordsFrom (by simp) hcs

theorem wordsFrom_intercalate {ws : List (List Char)}
    (h : ∀ w ∈ ws, w ≠ [] ∧ ∀ c ∈ w, isSpace c = false) :
    wordsFrom [] ([' '].intercalate ws) = ws := by
  induction ws with
  | nil => rfl
  | cons w ws ih =>
    obtain ⟨⟨hne, hw⟩, hws⟩ := List.forall_mem_cons.mp h
    cases ws with
    | nil => simpa [wordsFrom, hne] using wordsFrom_append hw [] []
    | cons v ws =>
      have hspace : isSpace ' ' = true := by decide
      have hjoin : [' '].intercalate (w :: v :: ws) = w ++ ' ' :: [' '].intercalate (v :: ws) := by
        simp [List.intercalate_cons_of_ne_nil]
      rw [hjoin, wordsFrom_append hw, wordsFrom, ih hws]
      simp [hspace, hne]

theorem words_intercalate_iff {ss : List String} (hne : ∀ s ∈ ss, s ≠ "") :
    words (" ".intercalate ss) = ss ↔ ∀ s ∈ ss, Unspaced s := by
  constructor
  · intro h s hs
    rw [← h] at hs
    exact unspaced_of_mem_words hs
  · intro h
    have hwords :
        wordsFrom [] ([' '].intercalate (ss.map String.toList)) = ss.map String.toList := by
      apply wordsFrom_intercalate
      rw [List.forall_mem_map]
      exact fun s hs => ⟨by simpa using hne s hs, h s hs⟩
    have hspace : " ".toList = [' '] := rfl
    rw [words, String.toList_intercalate, hspace, hwords, List.map_map]
    simp [Function.comp_def]

theorem isAlpha_of_isUpper {c : Char} (h : c.isUpper) : c.isAlpha = true :=
  Bool.or_eq_true_iff.mpr (.inl h)

theorem isAlpha_toLower {c : Char} (h : c.isUpper) : c.toLower.isAlpha = true :=
  Bool.or_eq_true_iff.mpr (.inr (isLower_toLower h))

theorem isSpace_toLower {c : Char} (h : c.isUpper) : isSpace c.toLower = false :=
  Template.isSpace_of_isAlphanum (by simp [Char.isAlphanum, isAlpha_toLower h])

theorem unspaced_kebabChars_iff {afterSmall : Bool} {cs : List Char} :
    (∀ c ∈ kebabChars afterSmall cs, isSpace c = false) ↔ ∀ c ∈ cs, isSpace c = true → c = ' ' := by
  have hhyphen : isSpace '-' = false := by decide
  have hlow : isSpace '_' = false := by decide
  induction cs generalizing afterSmall with
  | nil => simp [kebabChars]
  | cons c cs ih =>
    rw [kebabChars, List.forall_mem_cons]
    split
    · next hc =>
      have hplain : isSpace c = true → c = ' ' := by
        simp only [Bool.or_eq_true, decide_eq_true_eq] at hc
        obtain rfl | rfl := hc
        · simp [hlow]
        · exact fun _ => rfl
      rw [List.forall_mem_cons]
      exact ⟨fun h => ⟨hplain, ih.mp h.2⟩, fun h => ⟨hhyphen, ih.mpr h.2⟩⟩
    · next hc =>
      split
      · next hupper =>
        have hspace : isSpace c = false :=
          Template.isSpace_of_isAlphanum (by simp [Char.isAlphanum, isAlpha_of_isUpper hupper])
        split <;> simp [ih, hhyphen, hspace, isSpace_toLower hupper]
      · have hne : c ≠ ' ' := by
          rintro rfl
          exact hc (by decide)
        simp [ih, hne]

theorem unspaced_kebab_iff {s : String} :
    Unspaced (kebab s) ↔ ∀ c ∈ s.toList, isSpace c = true → c = ' ' := by
  simpa [Unspaced, kebab] using unspaced_kebabChars_iff

end Text

namespace Html

namespace ClassList

theorem nodup_pushAll {cs : ClassList} (h : cs.Nodup) (new : List String) :
    (pushAll cs new).Nodup := by
  induction new generalizing cs with
  | nil => exact h
  | cons c new ih =>
    refine ih ?_
    rw [push]
    split
    · exact h
    · next hc =>
      rw [Bool.or_eq_true, not_or, List.contains_iff_mem] at hc
      exact List.nodup_append.mpr ⟨h, List.nodup_singleton c, by
        rintro d hd _ hc' rfl
        exact hc.2 (List.mem_singleton.mp hc' ▸ hd)⟩

theorem mem_pushAll {cs : ClassList} {new : List String} {c : String} :
    c ∈ pushAll cs new ↔ c ∈ cs ∨ c ∈ new ∧ c ≠ "" := by
  induction new generalizing cs with
  | nil => simp [pushAll]
  | cons d new ih =>
    have hpush : c ∈ push cs d ↔ c ∈ cs ∨ c = d ∧ c ≠ "" := by
      rw [push]
      split
      · next hd =>
        rw [Bool.or_eq_true, String.isEmpty_iff, List.contains_iff_mem] at hd
        refine ⟨.inl, Or.rec id ?_⟩
        rintro ⟨rfl, hne⟩
        exact hd.resolve_left hne
      · next hd =>
        rw [Bool.or_eq_true, not_or, String.isEmpty_iff] at hd
        rw [List.mem_append, List.mem_singleton]
        refine or_congr_right ⟨fun h => ⟨h, h ▸ hd.1⟩, And.left⟩
    rw [List.mem_cons]
    refine ih.trans ?_
    rw [hpush]
    tauto

end ClassList

namespace ClassRules

open Text

variable {r : ClassRules} {fragment c : String} {defaults config : Props}

theorem mem_orderedModifiers {key : String} : key ∈ r.orderedModifiers ↔ key ∈ r.modifiers := by
  by_cases h : key ∈ leadingModifiers <;> simp [orderedModifiers, h]

theorem unspaced_of_mem_callerClasses (h : c ∈ callerClasses config) : Unspaced c := by
  rw [callerClasses] at h
  split at h
  · exact unspaced_of_mem_words h
  · obtain ⟨v, -, hv⟩ := List.mem_flatMap.mp h
    split at hv
    · exact unspaced_of_mem_words hv
    · cases hv
  · cases h

/-- The modifiers of a fragment that are set, and not to their defaults, with their texts. -/
def Chosen (r : ClassRules) (defaults config : Props) (key value : String) : Prop :=
  key ∈ r.modifiers ∧ (config.get? key).bind modifierText? = some value ∧
    (defaults.get? key).bind modifierText? ≠ some value

def Raised (r : ClassRules) (config : Props) (flag : String) : Prop :=
  flag ∈ r.flags ∧ ∃ v, config.get? flag = some v ∧ v.isTruthy = true

theorem modifierClass?_eq_some_iff {base key : String} :
    modifierClass? base defaults config key = some c ↔
      ∃ value, (config.get? key).bind modifierText? = some value ∧
        (defaults.get? key).bind modifierText? ≠ some value ∧
        (if key = "state" then "is-" else base ++ "-") ++ value = c := by
  rw [modifierClass?]
  cases (config.get? key).bind modifierText? with
  | none => simp
  | some value =>
    by_cases hdefault : (defaults.get? key).bind modifierText? = some value
    · simp [hdefault]
    · by_cases hstate : key = "state" <;> simp [hdefault, hstate]

theorem unspaced_modifierClasses_iff {base : String} (hbase : Unspaced base) :
    (∀ c ∈ r.orderedModifiers.filterMap (modifierClass? base defaults config), Unspaced c) ↔
      ∀ key value, r.Chosen defaults config key value → Unspaced value := by
  have hlead : ∀ key, Unspaced (if key = "state" then "is-" else base ++ "-") := by
    intro key
    have his : Unspaced "is-" := by decide
    have hhyphen : Unspaced "-" := by decide
    split
    · exact his
    · exact unspaced_append.mpr ⟨hbase, hhyphen⟩
  simp only [List.mem_filterMap, mem_orderedModifiers, modifierClass?_eq_some_iff]
  constructor
  · rintro h key value ⟨hkey, hset, hdefault⟩
    exact (unspaced_append.mp (h _ ⟨key, hkey, value, hset, hdefault, rfl⟩)).2
  · rintro h _ ⟨key, hkey, value, hset, hdefault, rfl⟩
    exact unspaced_append.mpr ⟨hlead key, h key value ⟨hkey, hset, hdefault⟩⟩

theorem flagClass?_eq_some_iff {base flag : String} :
    flagClass? base config flag = some c ↔
      (∃ v, config.get? flag = some v ∧ v.isTruthy = true) ∧ base ++ "--" ++ kebab flag = c := by
  rw [flagClass?]
  cases config.get? flag with
  | none => simp
  | some v => by_cases hv : v.isTruthy <;> simp [hv]

theorem unspaced_flagClasses_iff {base : String} (hbase : Unspaced base) :
    (∀ c ∈ r.flags.filterMap (flagClass? base config), Unspaced c) ↔
      ∀ flag, r.Raised config flag → ∀ c ∈ flag.toList, isSpace c = true → c = ' ' := by
  have hlead : Unspaced (base ++ "--") := unspaced_append.mpr ⟨hbase, by decide⟩
  simp only [List.mem_filterMap, flagClass?_eq_some_iff, ← unspaced_kebab_iff]
  constructor
  · rintro h flag ⟨hflag, hset⟩
    exact (unspaced_append.mp (h _ ⟨flag, hflag, hset, rfl⟩)).2
  · rintro h _ ⟨flag, hflag, hset, rfl⟩
    exact unspaced_append.mpr ⟨hlead, h flag ⟨hflag, hset⟩⟩

theorem unspaced_candidates_iff :
    (∀ c ∈ r.candidates fragment defaults config, Unspaced c) ↔
      Unspaced (r.base.getD fragment) ∧
        (∀ key value, r.Chosen defaults config key value → Unspaced value) ∧
        ∀ flag, r.Raised config flag → ∀ c ∈ flag.toList, isSpace c = true → c = ' ' := by
  rw [candidates, List.forall_mem_cons, List.forall_mem_append, List.forall_mem_append]
  refine and_congr_right fun hbase => ?_
  rw [unspaced_modifierClasses_iff hbase, unspaced_flagClasses_iff hbase, and_assoc]
  exact and_congr_right fun _ => and_iff_left fun c => unspaced_of_mem_callerClasses

/-- No class is in the list twice, and the text of the class attribute says what is in the list
exactly if no white space stands in the base class, inside the text of a modifier that is chosen, or
in the name of a flag that is raised, where a space becomes a hyphen. -/
theorem build_words_iff (r : ClassRules) (fragment : String) (defaults config : Props) :
    (r.build fragment defaults config).Nodup ∧
      (words (r.build fragment defaults config).text = r.build fragment defaults config ↔
        Unspaced (r.base.getD fragment) ∧
          (∀ key value, r.Chosen defaults config key value → Unspaced value) ∧
          ∀ flag, r.Raised config flag → ∀ c ∈ flag.toList, isSpace c = true → c = ' ') := by
  have hmem : ∀ c, c ∈ r.build fragment defaults config ↔
      c ∈ r.candidates fragment defaults config ∧ c ≠ "" := by
    intro c
    simp [build, ClassList.mem_pushAll]
  refine ⟨ClassList.nodup_pushAll List.nodup_nil _, ?_⟩
  rw [ClassList.text, words_intercalate_iff fun c hc => ((hmem c).mp hc).2,
    ← unspaced_candidates_iff]
  refine forall_congr' fun c => ?_
  rw [hmem]
  by_cases hc : c = ""
  · subst hc
    simp [Unspaced]
  · simp [hc]

/-- A modifier of two words comes into the attribute as two classes, the second of which is the base
class once more. -/
theorem build_repeats_base :
    let rules : ClassRules := { base := some "btn", modifiers := ["size"] }
    let classes := rules.build "button" [] [("size", .string "lg btn")]
    classes = ["btn", "btn-lg btn"] ∧ words classes.text = ["btn", "btn-lg", "btn"] ∧
      ¬(words classes.text = classes ∧ (words classes.text).Nodup) := by
  decide +kernel

end ClassRules

end Html

end StaticSite
