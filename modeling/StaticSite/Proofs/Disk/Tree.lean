import Mathlib.Data.List.Infix
import Mathlib.Data.List.Nodup
import StaticSite.Disk.Tree
import StaticSite.Proofs.Path.Spelling

namespace StaticSite.FileTree

def file? (t : FileTree) (place : List String) : Option ByteArray :=
  match t.get? place with
  | some (.file content) => some content
  | _ => none

def HasDir (t : FileTree) (place : List String) : Prop := ∃ entries, t.get? place = some (.dir entries)

theorem file?_eq_some_iff {t : FileTree} {place : List String} {content : ByteArray} :
    t.file? place = some content ↔ t.get? place = some (.file content) := by
  unfold file?
  split <;> simp_all

theorem HasDir.file?_eq_none {t : FileTree} {place : List String} (h : t.HasDir place) :
    t.file? place = none := by
  obtain ⟨entries, h⟩ := h
  simp [file?, h]

theorem HasDir.of_append {t : FileTree} {place below : List String}
    (h : t.HasDir (place ++ below)) : t.HasDir place := by
  obtain ⟨entries, h⟩ := h
  rw [get?_append] at h
  obtain ⟨u, hu, h⟩ := Option.bind_eq_some_iff.mp h
  cases u with
  | dir es => exact ⟨es, hu⟩
  | file content => cases below <;> simp [get?] at h

theorem HasDir.of_prefix {t : FileTree} {p q : List String} (h : t.HasDir q) (hp : p <+: q) :
    t.HasDir p := by
  obtain ⟨below, rfl⟩ := hp
  exact h.of_append

theorem file?_dir_cons (entries : List (String × FileTree)) (n : String) (ns : List String) :
    (dir entries).file? (n :: ns) = (entries.lookup n).bind fun t => t.file? ns := by
  cases h : entries.lookup n <;> simp [file?, get?, h]

theorem hasDir_dir_nil (entries : List (String × FileTree)) : (dir entries).HasDir [] := ⟨_, rfl⟩

theorem not_hasDir_file (content : ByteArray) (place : List String) :
    ¬(file content).HasDir place := by
  rintro ⟨entries, h⟩
  cases place <;> simp [get?] at h

theorem hasDir_dir_cons {entries : List (String × FileTree)} {n : String} {ns : List String} :
    (dir entries).HasDir (n :: ns) ↔ ∃ t, entries.lookup n = some t ∧ t.HasDir ns := by
  cases h : entries.lookup n <;> simp [HasDir, get?, h]

theorem lookup_cons (m n : String) (t : FileTree) (rest : List (String × FileTree)) :
    ((n, t) :: rest).lookup m = if m = n then some t else rest.lookup m := by
  by_cases h : m = n
  · simp [h]
  · simp [List.lookup_cons, beq_false_of_ne h, h]

theorem lookup_changeEntry (name m : String) (change : Option FileTree → FileTree)
    (entries : List (String × FileTree)) :
    (changeEntry name change entries).lookup m =
      if m = name then some (change (entries.lookup name)) else entries.lookup m := by
  induction entries with
  | nil => rw [changeEntry, lookup_cons]; rfl
  | cons e rest ih =>
    obtain ⟨n, t⟩ := e
    rw [changeEntry, lookup_cons, lookup_cons]
    by_cases hn : n = name
    · subst hn
      simp only [if_true, lookup_cons]
      split <;> rfl
    · rw [if_neg hn, lookup_cons, ih, if_neg (Ne.symm hn)]
      by_cases hm : m = n <;> simp [hm, hn]

theorem lookup_filter_ne (name m : String) (entries : List (String × FileTree)) :
    (entries.filter fun e => e.1 ≠ name).lookup m = if m = name then none else entries.lookup m := by
  induction entries with
  | nil => simp
  | cons e rest ih =>
    obtain ⟨n, t⟩ := e
    by_cases hn : n = name
    · subst hn
      rw [List.filter_cons_of_neg (by simp), ih, lookup_cons]
      by_cases hm : m = n <;> simp [hm]
    · rw [List.filter_cons_of_pos (by simpa using hn), lookup_cons, lookup_cons, ih]
      by_cases hm : m = n <;> simp [hm, hn]

theorem lookup_map_erase (name m : String) (names : List String)
    (entries : List (String × FileTree)) :
    (entries.map fun e => if e.1 = name then (e.1, erase e.2 names) else e).lookup m =
      if m = name then (entries.lookup m).map fun t => erase t names else entries.lookup m := by
  induction entries with
  | nil => simp
  | cons e rest ih =>
    obtain ⟨n, t⟩ := e
    by_cases hn : n = name
    · subst hn
      rw [List.map_cons, if_pos rfl, lookup_cons, lookup_cons, ih]
      by_cases hm : m = n <;> simp [hm]
    · rw [List.map_cons, if_neg hn, lookup_cons, lookup_cons, ih]
      by_cases hm : m = n
      · subst hm
        simp [hn]
      · simp [hm]

section Put

variable {p q : List String} {new : FileTree}

theorem file?_put (t : FileTree) (h : ¬p <+: q) : (t.put p new).file? q = t.file? q := by
  induction p generalizing t q with
  | nil => exact absurd List.nil_prefix h
  | cons n ns ih =>
    cases t with
    | file content => rfl
    | dir entries =>
      cases q with
      | nil => rfl
      | cons m ms =>
        rw [put, file?_dir_cons, file?_dir_cons, lookup_changeEntry]
        by_cases hm : m = n
        · subst hm
          have hns : ¬ns <+: ms := fun hp => h (List.cons_prefix_cons.mpr ⟨rfl, hp⟩)
          cases hl : entries.lookup m with
          | some u => simpa using ih u hns
          | none =>
            have hempty : empty.file? ms = none := by
              cases ms with
              | nil => rfl
              | cons => rfl
            simpa [hempty] using ih empty hns
        · simp [hm]

theorem HasDir.put {t : FileTree} (hq : t.HasDir q) (h : ¬p <+: q) : (t.put p new).HasDir q := by
  induction p generalizing t q with
  | nil => exact absurd List.nil_prefix h
  | cons n ns ih =>
    cases t with
    | file content => exact hq
    | dir entries =>
      cases q with
      | nil => exact hasDir_dir_nil _
      | cons m ms =>
        rw [FileTree.put, hasDir_dir_cons, lookup_changeEntry]
        obtain ⟨u, hu, hms⟩ := hasDir_dir_cons.mp hq
        by_cases hm : m = n
        · subst hm
          have hns : ¬ns <+: ms := fun hp => h (List.cons_prefix_cons.mpr ⟨rfl, hp⟩)
          exact ⟨_, if_pos rfl, by simpa [hu] using ih hms hns⟩
        · exact ⟨u, by simpa [hm] using hu, hms⟩

theorem get?_put {t : FileTree} (h : t.HasDir p) (new : FileTree) (n : String)
    (below : List String) :
    (t.put (p ++ [n]) new).get? (p ++ n :: below) = new.get? below := by
  induction p generalizing t with
  | nil =>
    obtain ⟨entries, h⟩ := h
    cases h
    simp [FileTree.put, get?, lookup_changeEntry]
  | cons m ms ih =>
    cases t with
    | file content => exact absurd h (not_hasDir_file _ _)
    | dir entries =>
      obtain ⟨u, hu, hms⟩ := hasDir_dir_cons.mp h
      simpa [FileTree.put, get?, lookup_changeEntry, hu] using ih hms

theorem file?_put_empty {t : FileTree} (h : t.HasDir p) : (t.put p empty).file? p = none := by
  induction p generalizing t with
  | nil => cases t <;> rfl
  | cons n ns ih =>
    cases t with
    | file content => exact absurd h (not_hasDir_file _ _)
    | dir entries =>
      obtain ⟨u, hu, hns⟩ := hasDir_dir_cons.mp h
      rw [FileTree.put, file?_dir_cons, lookup_changeEntry, if_pos rfl, hu]
      exact ih hns

end Put

section Erase

variable {p q : List String}

theorem file?_erase (t : FileTree) (h : ¬p <+: q) : (t.erase p).file? q = t.file? q := by
  induction p generalizing t q with
  | nil => exact absurd List.nil_prefix h
  | cons n ns ih =>
    cases t with
    | file content => cases ns <;> rfl
    | dir entries =>
      cases q with
      | nil => cases ns <;> rfl
      | cons m ms =>
        rw [List.cons_prefix_cons, not_and] at h
        cases ns with
        | nil =>
          have hm : m ≠ n := fun hm => h hm.symm List.nil_prefix
          rw [erase, file?_dir_cons, file?_dir_cons, lookup_filter_ne, if_neg hm]
        | cons n' ns =>
          rw [erase, file?_dir_cons, file?_dir_cons, lookup_map_erase]
          by_cases hm : m = n
          · subst hm
            cases entries.lookup m with
            | none => simp
            | some u => simpa using ih u (h rfl)
          · rw [if_neg hm]

theorem HasDir.erase {t : FileTree} (hq : t.HasDir q) (h : ¬p <+: q) : (t.erase p).HasDir q := by
  induction p generalizing t q with
  | nil => exact absurd List.nil_prefix h
  | cons n ns ih =>
    cases t with
    | file content => exact absurd hq (not_hasDir_file _ _)
    | dir entries =>
      cases q with
      | nil => cases ns <;> exact hasDir_dir_nil _
      | cons m ms =>
        rw [List.cons_prefix_cons, not_and] at h
        obtain ⟨u, hu, hms⟩ := hasDir_dir_cons.mp hq
        cases ns with
        | nil =>
          have hm : m ≠ n := fun hm => h hm.symm List.nil_prefix
          rw [FileTree.erase, hasDir_dir_cons, lookup_filter_ne, if_neg hm]
          exact ⟨u, hu, hms⟩
        | cons n' ns =>
          rw [FileTree.erase, hasDir_dir_cons, lookup_map_erase]
          by_cases hm : m = n
          · subst hm
            exact ⟨_, by simp [hu], ih hms (h rfl)⟩
          · exact ⟨u, by simpa [hm] using hu, hms⟩

theorem file?_erase_self {t : FileTree} (h : t.HasDir p) : (t.erase p).file? p = none := by
  induction p generalizing t with
  | nil =>
    obtain ⟨entries, h⟩ := h
    cases h
    rfl
  | cons n ns ih =>
    cases t with
    | file content => exact absurd h (not_hasDir_file _ _)
    | dir entries =>
      obtain ⟨u, hu, hns⟩ := hasDir_dir_cons.mp h
      cases ns with
      | nil =>
        rw [FileTree.erase, file?_dir_cons, lookup_filter_ne, if_pos rfl]
        rfl
      | cons n' ns =>
        rw [FileTree.erase, file?_dir_cons, lookup_map_erase, if_pos rfl, hu]
        exact ih hns

end Erase

inductive WellFormed : FileTree → Prop
  | file (content : ByteArray) : WellFormed (.file content)
  | dir {entries : List (String × FileTree)} : (entries.map Prod.fst).Nodup →
      (∀ e ∈ entries, IsFileName e.1) → (∀ e ∈ entries, WellFormed e.2) → WellFormed (.dir entries)

theorem wellFormed_empty : empty.WellFormed := .dir List.nodup_nil (by simp) (by simp)

theorem map_fst_changeEntry (name : String) (change : Option FileTree → FileTree)
    (entries : List (String × FileTree)) :
    (changeEntry name change entries).map Prod.fst =
      if name ∈ entries.map Prod.fst then entries.map Prod.fst
      else entries.map Prod.fst ++ [name] := by
  induction entries with
  | nil => rfl
  | cons e rest ih =>
    obtain ⟨n, t⟩ := e
    rw [changeEntry]
    by_cases hn : n = name
    · simp [hn]
    · simp only [if_neg hn, List.map_cons, ih, List.mem_cons, Ne.symm hn, false_or]
      split <;> rfl

theorem mem_changeEntry {name : String} {change : Option FileTree → FileTree}
    {entries : List (String × FileTree)} {e : String × FileTree}
    (h : e ∈ changeEntry name change entries) :
    e ∈ entries ∨ e = (name, change none) ∨ ∃ t, (name, t) ∈ entries ∧ e = (name, change (some t)) := by
  induction entries with
  | nil => exact .inr (.inl (List.mem_singleton.mp h))
  | cons first rest ih =>
    obtain ⟨n, t⟩ := first
    rw [changeEntry] at h
    split at h
    · next hn =>
      subst hn
      obtain rfl | h := List.mem_cons.mp h
      · exact .inr (.inr ⟨t, List.mem_cons_self, rfl⟩)
      · exact .inl (List.mem_cons_of_mem _ h)
    · obtain rfl | h := List.mem_cons.mp h
      · exact .inl List.mem_cons_self
      · obtain h | h | ⟨u, hu, h⟩ := ih h
        · exact .inl (List.mem_cons_of_mem _ h)
        · exact .inr (.inl h)
        · exact .inr (.inr ⟨u, List.mem_cons_of_mem _ hu, h⟩)

theorem WellFormed.put {t new : FileTree} {p : List String} (h : t.WellFormed)
    (hnew : new.WellFormed) (hp : ∀ n ∈ p, IsFileName n) : (t.put p new).WellFormed := by
  induction p generalizing t with
  | nil => cases t <;> exact hnew
  | cons n ns ih =>
    rw [List.forall_mem_cons] at hp
    cases h with
    | file content => exact .file content
    | @dir entries hnodup hnames hrest =>
      have hchange : ∀ e ∈ changeEntry n (fun old => FileTree.put (old.getD empty) ns new) entries,
          IsFileName e.1 ∧ e.2.WellFormed := by
        intro e he
        obtain he | rfl | ⟨u, hu, rfl⟩ := mem_changeEntry he
        · exact ⟨hnames e he, hrest e he⟩
        · exact ⟨hp.1, ih wellFormed_empty hp.2⟩
        · exact ⟨hp.1, ih (hrest _ hu) hp.2⟩
      refine .dir ?_ (fun e he => (hchange e he).1) fun e he => (hchange e he).2
      rw [map_fst_changeEntry]
      split
      · exact hnodup
      · next hn =>
        refine List.nodup_append.mpr ⟨hnodup, by simp, fun a ha b hb => ?_⟩
        exact List.mem_singleton.mp hb ▸ ne_of_mem_of_not_mem ha hn

def ofFiles (fs : List (List String × String)) : FileTree :=
  fs.foldr (fun f t => t.put f.1 (.file f.2.toUTF8)) empty

theorem wellFormed_ofFiles {fs : List (List String × String)}
    (h : ∀ f ∈ fs, ∀ n ∈ f.1, IsFileName n) : (ofFiles fs).WellFormed := by
  induction fs with
  | nil => exact wellFormed_empty
  | cons f fs ih =>
    rw [List.forall_mem_cons] at h
    exact (ih h.2).put (.file f.2.toUTF8) h.1

theorem WellFormed.erase {t : FileTree} (h : t.WellFormed) (p : List String) :
    (t.erase p).WellFormed := by
  induction p generalizing t with
  | nil => cases t <;> exact h
  | cons n ns ih =>
    cases h with
    | file content => cases ns <;> exact .file content
    | @dir entries hnodup hnames hrest =>
      cases ns with
      | nil =>
        have hsub : ∀ e ∈ entries.filter fun e => e.1 ≠ n, e ∈ entries := fun e =>
          List.mem_of_mem_filter
        refine .dir ?_ (fun e he => hnames e (hsub e he)) fun e he => hrest e (hsub e he)
        exact hnodup.sublist (List.filter_sublist.map _)
      | cons n' ns =>
        let change (e : String × FileTree) := if e.1 = n then (e.1, e.2.erase (n' :: ns)) else e
        have hfst : ∀ e, (change e).1 = e.1 := by
          intro e
          simp only [change]
          split <;> rfl
        have hsnd : ∀ e ∈ entries, (change e).2.WellFormed := by
          intro e he
          simp only [change]
          split
          · exact ih (hrest e he)
          · exact hrest e he
        refine @WellFormed.dir (entries.map change) ?_ ?_ ?_
        · simpa [Function.comp_def, hfst] using hnodup
        · exact List.forall_mem_map.mpr fun e he => hfst e ▸ hnames e he
        · exact List.forall_mem_map.mpr hsnd

theorem mem_of_lookup {entries : List (String × FileTree)} {n : String} {t : FileTree}
    (h : entries.lookup n = some t) : (n, t) ∈ entries := by
  obtain ⟨before, after, hsplit, -⟩ := List.lookup_eq_some_iff.mp h
  simp [hsplit]

theorem lookup_of_mem {entries : List (String × FileTree)} (h : (entries.map Prod.fst).Nodup)
    {e : String × FileTree} (he : e ∈ entries) : entries.lookup e.1 = some e.2 := by
  induction entries with
  | nil => cases he
  | cons first rest ih =>
    obtain ⟨n, t⟩ := first
    rw [List.map_cons, List.nodup_cons] at h
    rw [lookup_cons]
    obtain rfl | he := List.mem_cons.mp he
    · exact if_pos rfl
    · have hne : e.1 ≠ n := ne_of_mem_of_not_mem (List.mem_map_of_mem he) h.1
      rw [if_neg hne]
      exact ih h.2 he

theorem WellFormed.get? {t u : FileTree} {p : List String} (h : t.WellFormed)
    (hu : t.get? p = some u) : u.WellFormed ∧ ∀ n ∈ p, IsFileName n := by
  induction p generalizing t with
  | nil =>
    have : t = u := by cases t <;> simpa [FileTree.get?] using hu
    exact ⟨this ▸ h, by simp⟩
  | cons n ns ih =>
    cases h with
    | file content => simp [FileTree.get?] at hu
    | dir hnodup hnames hrest =>
      obtain ⟨v, hv, hu⟩ := Option.bind_eq_some_iff.mp hu
      have hmem := mem_of_lookup hv
      obtain ⟨hwf, hns⟩ := ih (hrest _ hmem) hu
      exact ⟨hwf, List.forall_mem_cons.mpr ⟨hnames _ hmem, hns⟩⟩

theorem entryFiles_eq (entries : List (String × FileTree)) :
    entryFiles entries = entries.map fun e => (e.1, e.2.files) := by
  induction entries with
  | nil => rfl
  | cons e rest ih =>
    obtain ⟨n, t⟩ := e
    rw [entryFiles, ih]
    rfl

theorem WellFormed.mem_files {t : FileTree} (h : t.WellFormed) {names : List String}
    {content : ByteArray} : (names, content) ∈ t.files ↔ t.file? names = some content := by
  induction h generalizing names with
  | file c => cases names <;> simp [files, file?, FileTree.get?, eq_comm]
  | @dir entries hnodup hnames hrest ih =>
    rw [files, entryFiles_eq]
    simp only [List.mem_flatMap, List.mem_mergeSort, List.mem_map]
    constructor
    · rintro ⟨_, ⟨e, he, rfl⟩, f, hf, heq⟩
      cases heq
      rw [file?_dir_cons, lookup_of_mem hnodup he]
      exact (ih e he).mp hf
    · intro hfile
      cases names with
      | nil => cases hfile
      | cons n ns =>
        rw [file?_dir_cons] at hfile
        obtain ⟨u, hu, hfile⟩ := Option.bind_eq_some_iff.mp hfile
        have hmem := mem_of_lookup hu
        exact ⟨_, ⟨_, hmem, rfl⟩, (ns, content), (ih _ hmem).mpr hfile, rfl⟩

end StaticSite.FileTree
