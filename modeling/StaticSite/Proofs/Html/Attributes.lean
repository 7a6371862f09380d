import Mathlib.Data.List.Nodup
import StaticSite.Proofs.Html.Inert

namespace StaticSite.Html

def unescapeChars : List Char → List Char
  | '&' :: 'a' :: 'm' :: 'p' :: ';' :: cs => '&' :: unescapeChars cs
  | '&' :: 'l' :: 't' :: ';' :: cs => '<' :: unescapeChars cs
  | '&' :: 'g' :: 't' :: ';' :: cs => '>' :: unescapeChars cs
  | '&' :: 'q' :: 'u' :: 'o' :: 't' :: ';' :: cs => '"' :: unescapeChars cs
  | '&' :: '#' :: '3' :: '9' :: ';' :: cs => '\x27' :: unescapeChars cs
  | c :: cs => c :: unescapeChars cs
  | [] => []

theorem unescapeChars_cons {c : Char} (hc : c ≠ '&') (cs : List Char) :
    unescapeChars (c :: cs) = c :: unescapeChars cs := by
  rw [unescapeChars] <;> simp [hc]

theorem unescapeChars_escapeChars (cs : List Char) : unescapeChars (escapeChars cs) = cs := by
  induction cs with
  | nil => rfl
  | cons c cs ih =>
    change unescapeChars (escapeChar c ++ escapeChars cs) = c :: cs
    unfold escapeChar
    iterate 5
      split
      · next hc => simp [unescapeChars, ih, hc]
    next hamp _ _ _ _ => rw [List.singleton_append, unescapeChars_cons hamp, ih]

inductive Place
  | behind
  | name (rev : List Char)
  | assigned (name : List Char)
  | value (name rev : List Char)

structure Reader where
  done : Attributes := []
  place : Place := .behind

namespace Reader

def add (r : Reader) (name : List Char) (value : Option (List Char)) : Attributes :=
  r.done ++ [(String.ofList name.reverse, value.map fun v => String.ofList (unescapeChars v.reverse))]

def step (r : Reader) (c : Char) : Option Reader :=
  match r.place with
  | .behind => if c = ' ' then some { r with place := .name [] } else none
  | .name rev =>
    if c = ' ' then some ⟨r.add rev none, .name []⟩
    else if c = '=' then some { r with place := .assigned rev }
    else some { r with place := .name (c :: rev) }
  | .assigned name => if c = '"' then some { r with place := .value name [] } else none
  | .value name rev =>
    if c = '"' then some ⟨r.add name (some rev), .behind⟩
    else some { r with place := .value name (c :: rev) }

def finish (r : Reader) : Option Attributes :=
  match r.place with
  | .behind => some r.done
  | .name rev => some (r.add rev none)
  | .assigned _ | .value _ _ => none

theorem foldlM_name {name : List Char} (h : ∀ c ∈ name, c ≠ ' ' ∧ c ≠ '=') (done : Attributes)
    (rev : List Char) :
    name.foldlM step ⟨done, .name rev⟩ = some ⟨done, .name (name.reverse ++ rev)⟩ := by
  induction name generalizing rev with
  | nil => rfl
  | cons c name ih =>
    obtain ⟨⟨hspace, hequals⟩, hname⟩ := List.forall_mem_cons.mp h
    rw [List.foldlM_cons, step]
    simp [hspace, hequals, ih hname]

theorem foldlM_value {value : List Char} (h : ∀ c ∈ value, c ≠ '"') (done : Attributes)
    (name rev : List Char) :
    value.foldlM step ⟨done, .value name rev⟩ =
      some ⟨done, .value name (value.reverse ++ rev)⟩ := by
  induction value generalizing rev with
  | nil => rfl
  | cons c value ih =>
    obtain ⟨hquote, hvalue⟩ := List.forall_mem_cons.mp h
    rw [List.foldlM_cons, step]
    simp [hquote, ih hvalue]

theorem step_space {r : Reader} {as : Attributes} (h : r.finish = some as) :
    r.step ' ' = some ⟨as, .name []⟩ := by
  obtain ⟨done, place⟩ := r
  cases place with
  | behind => cases h; rfl
  | name rev => cases h; rfl
  | assigned name | value name rev => cases h

theorem exists_attribute {r : Reader} {as : Attributes} (h : r.finish = some as)
    {a : String × Option String} (ha : isAttributeName a.1 = true) :
    ∃ r', (attributeText a).toList.foldlM step r = some r' ∧ r'.finish = some (as ++ [a]) := by
  obtain ⟨name, value⟩ := a
  have hname : ∀ c ∈ name.toList, c ≠ ' ' ∧ c ≠ '=' := by
    intro c hc
    constructor
    · rintro rfl
      exact not_mem_of_isAttributeName ha (by simp) hc
    · rintro rfl
      exact not_mem_of_isAttributeName ha (by simp) hc
  cases value with
  | none =>
    have htext : (attributeText (name, none)).toList = ' ' :: name.toList := by
      simp [attributeText]
    refine ⟨⟨as, .name name.toList.reverse⟩, ?_, ?_⟩
    · rw [htext, List.foldlM_cons, step_space h]
      simpa using foldlM_name hname as []
    · simp [finish, add]
  | some v =>
    have htext : (attributeText (name, some v)).toList =
        ' ' :: (name.toList ++ ('=' :: '"' :: (escapeChars v.toList ++ ['"']))) := by
      simp [attributeText, escape]
    have hvalue : ∀ c ∈ escapeChars v.toList, c ≠ '"' := by
      rintro c hc rfl
      exact (inert_escapeChars v.toList).no_delimiter '"' hc (by simp)
    have hequals (rev : List Char) : step ⟨as, .name rev⟩ '=' = some ⟨as, .assigned rev⟩ := rfl
    have hopen (rev : List Char) : step ⟨as, .assigned rev⟩ '"' = some ⟨as, .value rev []⟩ := rfl
    have hclose (rev word : List Char) : step ⟨as, .value rev word⟩ '"' =
        some ⟨add ⟨as, .value rev word⟩ rev (some word), .behind⟩ := rfl
    refine ⟨⟨as ++ [(name, some v)], .behind⟩, ?_, rfl⟩
    rw [htext, List.foldlM_cons, step_space h]
    simp [foldlM_name hname, hequals, hopen, foldlM_value hvalue, hclose, add,
      unescapeChars_escapeChars]

theorem exists_attributes {r : Reader} {as : Attributes} (h : r.finish = some as)
    {bs : Attributes} (hbs : ∀ b ∈ bs, isAttributeName b.1 = true) :
    ∃ r', bs.text.toList.foldlM step r = some r' ∧ r'.finish = some (as ++ bs) := by
  induction bs generalizing r as with
  | nil => exact ⟨r, rfl, by simpa using h⟩
  | cons b bs ih =>
    obtain ⟨hb, hbs⟩ := List.forall_mem_cons.mp hbs
    obtain ⟨m, hm, hfinish⟩ := exists_attribute h hb
    obtain ⟨r', hr', hend⟩ := ih hfinish hbs
    refine ⟨r', ?_, by simpa using hend⟩
    have htext : (Attributes.text (b :: bs)).toList =
        (attributeText b).toList ++ (Attributes.text bs).toList := by
      simp [Attributes.text]
    rw [htext, List.foldlM_append, hm]
    exact hr'

end Reader

/-- The attributes that a text says, if it is made up of ` name` and ` name="value"`. -/
def Attributes.read? (text : String) : Option Attributes :=
  (text.toList.foldlM Reader.step {}).bind Reader.finish

theorem isAttributeName_of_mem (config : Props) :
    ∀ a ∈ accessible config ++ extra config, isAttributeName a.1 = true := by
  intro a ha
  exact (List.mem_append.mp ha).elim isAttributeName_of_mem_accessible isAttributeName_of_mem_extra

theorem map_fst_filterMap_sublist {f : α → Option (β × γ)} {g : α → β}
    (h : ∀ a b, f a = some b → b.1 = g a) (as : List α) :
    ((as.filterMap f).map Prod.fst).Sublist (as.map g) := by
  induction as with
  | nil => exact .slnil
  | cons a as ih =>
    cases ha : f a with
    | none => simpa [ha] using ih.cons (g a)
    | some b => simpa [ha, h a b ha] using ih

theorem names_accessible (config : Props) :
    ((accessible config).map Prod.fst).Sublist (accessibleNames.map Prod.snd) := by
  unfold accessible
  split
  · refine map_fst_filterMap_sublist (fun k a ha => ?_) accessibleNames
    obtain ⟨value, -, rfl⟩ := Option.map_eq_some_iff.mp ha
    rfl
  · exact List.nil_sublist _

theorem nodup_names_extra {config : Props}
    (h : ∀ group, config.get? "attrs" = some (.map group) → (Props.keys group).Nodup) :
    ((extra config).map Prod.fst).Nodup := by
  unfold extra
  split
  · next group hgroup =>
    refine (h group hgroup).sublist (map_fst_filterMap_sublist (fun m a ha => ?_) group)
    dsimp only at ha
    split at ha
    · obtain ⟨value, -, rfl⟩ := Option.map_eq_some_iff.mp ha
      rfl
    · cases ha
  · exact .nil

/-- The attributes of a configuration are read back from their text. The names in each of the two
groups differ, and those of the first are in the order of the table. -/
theorem read?_text (config : Props) :
    Attributes.read? ((accessible config).text ++ (extra config).text) =
        some (accessible config ++ extra config) ∧
      ((accessible config).map Prod.fst).Sublist (accessibleNames.map Prod.snd) ∧
      ((accessible config).map Prod.fst).Nodup ∧
      ((∀ group, config.get? "attrs" = some (.map group) → (Props.keys group).Nodup) →
        ((extra config).map Prod.fst).Nodup) := by
  have htable : (accessibleNames.map Prod.snd).Nodup := by decide
  refine ⟨?_, names_accessible config, htable.sublist (names_accessible config), nodup_names_extra⟩
  have htext : ((accessible config).text ++ (extra config).text) =
      Attributes.text (accessible config ++ extra config) := by
    simp [Attributes.text]
  obtain ⟨r, hrun, hfinish⟩ :=
    Reader.exists_attributes (r := {}) rfl (isAttributeName_of_mem config)
  rw [Attributes.read?, htext, hrun]
  simpa using hfinish

theorem read?_text_crowded :
    let group : Props := [("disabled", .bool true), ("b c", .string "d"), ("@e", .string "&amp;f")]
    let config : Props := [("a11y", .map [("tabIndex", .ofNat 0), ("role", .string "\" x='y'")]),
      ("attrs", .map group)]
    (Props.keys group).Nodup ∧
      (accessible config).text ++ (extra config).text =
        " role=\"&quot; x=&#39;y&#39;\" tabindex=\"0\" disabled @e=\"&amp;amp;f\"" ∧
      Attributes.read? ((accessible config).text ++ (extra config).text) =
        some [("role", some "\" x='y'"), ("tabindex", some "0"), ("disabled", none),
          ("@e", some "&amp;f")] ∧
      ((extra config).map Prod.fst).Nodup := by
  intro group config
  have hkeys : (Props.keys group).Nodup := by decide
  have hgroup : ∀ group', config.get? "attrs" = some (.map group') → (Props.keys group').Nodup := by
    intro group' h
    cases h
    exact hkeys
  obtain ⟨hread, -, -, hnames⟩ := read?_text config
  exact ⟨hkeys, by decide +kernel, hread, hnames hgroup⟩

end StaticSite.Html
