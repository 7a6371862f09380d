import StaticSite.Proofs.Html.Classes
import StaticSite.Proofs.Text.Trim

namespace StaticSite.Html

namespace ClassList

theorem pushAll_eq (cs : ClassList) (new : List String) :
    pushAll cs new = cs ++ (new.filter fun c => c ≠ "" ∧ c ∉ cs).eraseDups := by
  induction new generalizing cs with
  | nil => simp [pushAll]
  | cons c new ih =>
    change pushAll (push cs c) new = _
    rw [push]
    split
    · next hc =>
      have hdropped : ¬(c ≠ "" ∧ c ∉ cs) := by
        rw [Bool.or_eq_true, String.isEmpty_iff, List.contains_iff_mem] at hc
        tauto
      rw [ih, List.filter_cons_of_neg (by simpa using hdropped)]
    · next hc =>
      have hkept : c ≠ "" ∧ c ∉ cs := by simpa using hc
      have hlater : (new.filter fun d => d ≠ "" ∧ d ∉ cs ++ [c]) =
          (new.filter fun d => d ≠ "" ∧ d ∉ cs).filter fun d => !d == c := by
        rw [List.filter_filter]
        refine List.filter_congr fun d _ => ?_
        rw [Bool.eq_iff_iff]
        simp only [List.mem_append, List.mem_singleton, decide_eq_true_eq, Bool.and_eq_true,
          Bool.not_eq_true', beq_eq_false_iff_ne]
        tauto
      rw [ih, hlater, List.filter_cons_of_pos (by simpa using hkept), List.eraseDups_cons]
      simp

end ClassList

namespace ClassRules

def trimmedText? : Value → Option String
  | .string s => if Text.trim s = "" then none else some (Text.trim s)
  | .number n => some n.text
  | _ => none

theorem trimmedText?_eq (v : Value) : trimmedText? v = modifierText? v := by
  cases v <;> simp [trimmedText?, modifierText?, Text.trim_eq_empty_iff]

def chosenClasses (base : String) (defaults config : Props) (keys : List String) : List String :=
  keys.filterMap fun key =>
    (((config.get? key).bind trimmedText?).filter
      fun value => (defaults.get? key).bind trimmedText? ≠ some value).map
        fun value => (if key = "state" then "is-" else base ++ "-") ++ value

theorem filterMap_modifierClass? (base : String) (defaults config : Props) (keys : List String) :
    keys.filterMap (modifierClass? base defaults config) =
      chosenClasses base defaults config keys := by
  have htext : trimmedText? = modifierText? := funext trimmedText?_eq
  refine List.filterMap_congr fun key _ => ?_
  rw [modifierClass?, htext]
  generalize (defaults.get? key).bind modifierText? = default
  cases (config.get? key).bind modifierText? with
  | none => rfl
  | some value =>
    by_cases hdefault : default = some value <;> by_cases hstate : key = "state" <;>
      simp [hdefault, hstate, Option.filter_some]

theorem filterMap_flagClass? (base : String) (config : Props) (flags : List String) :
    flags.filterMap (flagClass? base config) =
      (flags.filter fun flag => (config.get? flag).any Value.isTruthy).map
        fun flag => base ++ "--" ++ Text.kebab flag := by
  rw [← List.filterMap_eq_map', List.filterMap_filter]
  refine List.filterMap_congr fun flag _ => ?_
  rw [flagClass?]
  cases config.get? flag with
  | none => rfl
  | some v => simp

theorem orderedModifiers_eq (r : ClassRules) :
    r.orderedModifiers =
      leadingModifiers.filter (· ∈ r.modifiers) ++ r.modifiers.filter (· ∉ leadingModifiers) := by
  have hlead : leadingModifiers.filter r.modifiers.contains =
      leadingModifiers.filter (· ∈ r.modifiers) :=
    List.filter_congr fun key _ => List.contains_eq_mem key r.modifiers
  rw [orderedModifiers, hlead]
  simp

/-- The classes of a fragment are the base class, the classes of the five leading modifiers in their
order and of the others as they are declared, the classes of its flags, and those of the caller:
each where it comes first, and none that is empty. So it does not matter where the leading modifiers
are declared, nor how often. -/
theorem build_eq_eraseDups (r : ClassRules) (fragment : String) (defaults config : Props) :
    let base := r.base.getD fragment
    let leading := ["variant", "size", "style", "shape", "state"]
    let classes := base ::
      (chosenClasses base defaults config
          (leading.filter (· ∈ r.modifiers) ++ r.modifiers.filter (· ∉ leading)) ++
        (r.flags.filter fun flag => (config.get? flag).any Value.isTruthy).map
          (fun flag => base ++ "--" ++ Text.kebab flag) ++
        callerClasses config)
    r.build fragment defaults config = (classes.filter (· ≠ "")).eraseDups ∧
      ∀ modifiers : List String, (∀ key ∈ leading, key ∈ modifiers ↔ key ∈ r.modifiers) →
        modifiers.filter (· ∉ leading) = r.modifiers.filter (· ∉ leading) →
        { r with modifiers }.build fragment defaults config = r.build fragment defaults config := by
  intro base leading classes
  constructor
  · have hcandidates : r.candidates fragment defaults config = classes := by
      rw [candidates, filterMap_modifierClass?, filterMap_flagClass?, orderedModifiers_eq]
      rfl
    rw [build, hcandidates, ClassList.pushAll_eq]
    simp
  · intro modifiers hlead hrest
    have hordered : { r with modifiers }.orderedModifiers = r.orderedModifiers := by
      have hleading : leading.filter (· ∈ modifiers) = leading.filter (· ∈ r.modifiers) :=
        List.filter_congr fun key hkey => decide_eq_decide.mpr (hlead key hkey)
      rw [orderedModifiers_eq, orderedModifiers_eq]
      exact congrArg₂ _ hleading hrest
    rw [build, build, candidates, candidates, hordered]

theorem build_eq_eraseDups_shuffled :
    let r : ClassRules := {
      base := some "btn", modifiers := ["shape", "size", "variant", "tone", "state"]
      flags := ["fullWidth"] }
    let shuffled := ["state", "tone", "variant", "size", "size", "shape"]
    let config : Props := [("tone", .string "danger"), ("size", .string " lg "),
      ("state", .string "on"), ("variant", .string "danger"), ("shape", .string "round"),
      ("fullWidth", .bool true), ("className", .string "wide btn-lg btn")]
    (∀ key ∈ leadingModifiers, key ∈ shuffled ↔ key ∈ r.modifiers) ∧
      shuffled.filter (· ∉ leadingModifiers) = r.modifiers.filter (· ∉ leadingModifiers) ∧
      { r with modifiers := shuffled }.build "button" [("shape", .string "round")] config =
        r.build "button" [("shape", .string "round")] config ∧
      r.build "button" [("shape", .string "round")] config =
        ["btn", "btn-danger", "btn-lg", "is-on", "btn--full-width", "wide"] := by
  intro r shuffled config
  have hlead : ∀ key ∈ leadingModifiers, key ∈ shuffled ↔ key ∈ r.modifiers := by decide
  have hrest : shuffled.filter (· ∉ leadingModifiers) =
      r.modifiers.filter (· ∉ leadingModifiers) := by decide
  exact ⟨hlead, hrest, (build_eq_eraseDups r "button" _ config).2 shuffled hlead hrest,
    by decide +kernel⟩

end ClassRules

end StaticSite.Html
