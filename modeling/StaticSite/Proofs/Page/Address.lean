import StaticSite.Page.Declaration
import StaticSite.Proofs.Text.Cut

namespace StaticSite

namespace PageNode

def at? (n : PageNode) : List Nat → Option PageNode
  | [] => some n
  | i :: address => n.children[i]?.bind fun c => c.at? address

mutual

/-- All nodes of a tree with their addresses, each before its children; `address` is that of the
root. -/
def nodes (address : List Nat) : PageNode → List (List Nat × PageNode)
  | ⟨fragment, text, props, children⟩ =>
    (address, ⟨fragment, text, props, children⟩) :: nodesFrom address 0 children

def nodesFrom (address : List Nat) (i : Nat) : List PageNode → List (List Nat × PageNode)
  | [] => []
  | n :: ns => n.nodes (address ++ [i]) ++ nodesFrom address (i + 1) ns

end

mutual

theorem mem_nodes_iff {address a : List Nat} {m : PageNode} : (n : PageNode) →
    ((a, m) ∈ n.nodes address ↔ ∃ below, a = address ++ below ∧ n.at? below = some m)
  | ⟨fragment, text, props, children⟩ => by
    rw [nodes, List.mem_cons, mem_nodesFrom_iff children]
    constructor
    · rintro (heq | ⟨j, c, below, hc, rfl, hm⟩)
      · cases heq
        exact ⟨[], by simp, rfl⟩
      · refine ⟨j :: below, by simp, ?_⟩
        rw [at?, hc]
        exact hm
    · rintro ⟨_ | ⟨j, below⟩, rfl, hm⟩
      · cases hm
        exact .inl (by simp)
      · obtain ⟨c, hc, hm⟩ := Option.bind_eq_some_iff.mp hm
        exact .inr ⟨j, c, below, hc, by simp, hm⟩

theorem mem_nodesFrom_iff {address a : List Nat} {i : Nat} {m : PageNode} : (ns : List PageNode) →
    ((a, m) ∈ nodesFrom address i ns ↔
      ∃ j c below, ns[j]? = some c ∧ a = address ++ (i + j) :: below ∧ c.at? below = some m)
  | [] => by simp [nodesFrom]
  | n :: ns => by
    rw [nodesFrom, List.mem_append, mem_nodes_iff n, mem_nodesFrom_iff ns]
    constructor
    · rintro (⟨below, rfl, hm⟩ | ⟨j, c, below, hc, rfl, hm⟩)
      · exact ⟨0, n, below, rfl, by simp, hm⟩
      · exact ⟨j + 1, c, below, hc, by simp [Nat.add_assoc, Nat.add_comm 1], hm⟩
    · rintro ⟨_ | j, c, below, hc, rfl, hm⟩
      · cases hc
        exact .inl ⟨below, by simp, hm⟩
      · exact .inr ⟨j, c, below, hc, by simp [Nat.add_assoc, Nat.add_comm 1], hm⟩

end

theorem nodes_eq_cons (address : List Nat) (n : PageNode) :
    n.nodes address = (address, n) :: nodesFrom address 0 n.children := by
  obtain ⟨_, _, _, _⟩ := n
  rfl

theorem mem_nodes_root_iff {n m : PageNode} {address : List Nat} :
    (address, m) ∈ n.nodes [] ↔ n.at? address = some m := by simp [mem_nodes_iff]

theorem at?_of_nodes_eq {n m : PageNode} {address : List Nat}
    {before after : List (List Nat × PageNode)}
    (h : n.nodes [] = before ++ (address, m) :: after) : n.at? address = some m :=
  mem_nodes_root_iff.mp (h ▸ List.mem_append_right _ List.mem_cons_self)

theorem forall_mem_nodes_iff {n : PageNode} {P : List Nat × PageNode → Prop} :
    (∀ x ∈ n.nodes [], P x) ↔ ∀ address m, n.at? address = some m → P (address, m) := by
  simp only [Prod.forall, mem_nodes_root_iff]

inductive Sound : PageNode → Prop
  | fragment {name : String} {props : Props} {children : List PageNode} :
      Text.isBlank name = false → Sound ⟨some name, none, props, children⟩
  | text {s : String} : Sound ⟨none, some s, [], []⟩

theorem ownFault?_eq_none_iff {n : PageNode} : n.ownFault? = none ↔ n.Sound := by
  obtain ⟨fragment, text, props, children⟩ := n
  constructor
  · intro h
    cases fragment with
    | none =>
      cases text with
      | none => cases h
      | some s =>
        obtain ⟨rfl, rfl⟩ : props = [] ∧ children = [] := by simpa [ownFault?] using h
        exact .text
    | some name =>
      cases text with
      | none => exact .fragment (by simpa [ownFault?] using h)
      | some s => cases h
  · rintro (hname | _)
    · simp [ownFault?, hname]
    · rfl

mutual

theorem firstFault?_eq (address : List Nat) : (n : PageNode) →
    n.firstFault? address =
      (n.nodes address).findSome? fun x => x.2.ownFault?.map fun f => (x.1, f)
  | ⟨fragment, text, props, children⟩ => by
    rw [firstFault?, nodes, List.findSome?_cons, firstFaultIn?_eq address 0 children]
    cases ownFault? ⟨fragment, text, props, children⟩ <;> rfl

theorem firstFaultIn?_eq (address : List Nat) (i : Nat) : (ns : List PageNode) →
    firstFaultIn? address i ns =
      (nodesFrom address i ns).findSome? fun x => x.2.ownFault?.map fun f => (x.1, f)
  | [] => rfl
  | n :: ns => by
    rw [firstFaultIn?, nodesFrom, List.findSome?_append, firstFault?_eq _ n,
      firstFaultIn?_eq address (i + 1) ns]
    cases (n.nodes (address ++ [i])).findSome? fun x => x.2.ownFault?.map fun f => (x.1, f) <;> rfl

end

theorem firstFault?_eq_none_iff {n : PageNode} :
    n.firstFault? [] = none ↔ ∀ address m, n.at? address = some m → m.Sound := by
  rw [firstFault?_eq, List.findSome?_eq_none_iff, forall_mem_nodes_iff]
  simp only [Option.map_eq_none_iff, ownFault?_eq_none_iff]

theorem firstFault?_eq_some_iff {n : PageNode} {address : List Nat} {f : NodeFault} :
    n.firstFault? [] = some (address, f) ↔
      ∃ before m after, n.nodes [] = before ++ (address, m) :: after ∧
        (∀ x ∈ before, x.2.Sound) ∧ m.ownFault? = some f := by
  rw [firstFault?_eq, List.findSome?_eq_some_iff]
  simp only [Option.map_eq_none_iff, ownFault?_eq_none_iff, Option.map_eq_some_iff]
  constructor
  · rintro ⟨before, ⟨address', m⟩, after, hnodes, ⟨f', hf, heq⟩, hbefore⟩
    cases heq
    exact ⟨before, m, after, hnodes, hbefore, hf⟩
  · rintro ⟨before, m, after, hnodes, hbefore, hf⟩
    exact ⟨before, (address, m), after, hnodes, ⟨f, hf, rfl⟩, hbefore⟩

end PageNode

def addressChars (address : List Nat) : List Char :=
  address.flatMap fun i => ".children[".toList ++ (i.repr.toList ++ [']'])

theorem addressChars_cons (i : Nat) (address : List Nat) (rest : List Char) :
    addressChars (i :: address) ++ rest =
      ".children[".toList ++ (i.repr.toList ++ ']' :: (addressChars address ++ rest)) := by
  rw [addressChars, List.flatMap_cons, List.append_assoc, List.append_assoc, List.append_assoc]
  rfl

theorem toList_addressText (address : List Nat) :
    (addressText address).toList = "root".toList ++ addressChars address := by
  rw [addressText, String.toList_append, String.toList_join, List.flatMap_map]
  simp only [addressChars, String.toList_append, List.append_assoc]
  rfl

theorem cutWhere_index (i : Nat) (rest : List Char) :
    Text.cutWhere (· = ']') (i.repr.toList ++ ']' :: rest) = some (i.repr.toList, rest) := by
  refine Text.cutWhere_eq_some_iff.mpr ⟨']', rfl, by decide, fun c hc => ?_⟩
  rw [Nat.toList_repr] at hc
  have hdigit := Nat.isDigit_of_mem_toDigits (by decide) (by decide) hc
  exact decide_eq_false fun heq => by simp [heq] at hdigit

theorem addressChars_inj {a b : List Nat} {cs ds : List Char}
    (h : addressChars a ++ ':' :: cs = addressChars b ++ ':' :: ds) : a = b := by
  induction a generalizing b with
  | nil =>
    cases b with
    | nil => rfl
    | cons j b =>
      rw [addressChars_cons] at h
      exact absurd (congrArg List.head? h) (by simp [addressChars])
  | cons i a ih =>
    cases b with
    | nil =>
      rw [addressChars_cons] at h
      exact absurd (congrArg List.head? h) (by simp [addressChars])
    | cons j b =>
      rw [addressChars_cons, addressChars_cons, List.append_cancel_left_eq] at h
      have hcut := congrArg (Text.cutWhere (· = ']')) h
      rw [cutWhere_index, cutWhere_index] at hcut
      obtain ⟨hindex, hrest⟩ := Prod.mk.inj (Option.some.inj hcut)
      rw [Nat.toList_repr, Nat.toList_repr] at hindex
      have hij := congrArg (Nat.ofDigitChars 10 · 0) hindex
      rw [Nat.ofDigitChars_ten_toDigits, Nat.ofDigitChars_ten_toDigits] at hij
      rw [hij, ih hrest]

theorem addressText_inj {a b : List Nat} {s t : String}
    (h : addressText a ++ ": " ++ s = addressText b ++ ": " ++ t) : a = b := by
  have hchars := congrArg String.toList h
  simp only [String.toList_append, toList_addressText, List.append_assoc,
    List.append_cancel_left_eq] at hchars
  exact addressChars_inj hchars

namespace PageDecl

def Fits (x : List Nat × PageNode) : Prop := x.2.Sound ∧ (x.1 = [] → x.2.fragment.isSome)

theorem check_eq_ok_iff {d : PageDecl} :
    d.check = .ok () ↔ Text.isBlank d.title = false ∧ d.root.fragment.isSome ∧
      ∀ address n, d.root.at? address = some n → n.Sound := by
  rw [← PageNode.firstFault?_eq_none_iff, check]
  cases Text.isBlank d.title
  · cases hfragment : d.root.fragment
    · simp
    · cases hfault : d.root.firstFault? [] <;> simp
  · simp

theorem exists_of_check_eq_error {d : PageDecl} {e : PageFault} (h : d.check = .error e)
    (htitle : Text.isBlank d.title = false) :
    ∃ before address n after reason, d.root.nodes [] = before ++ (address, n) :: after ∧
      (∀ x ∈ before, Fits x) ∧ ¬Fits (address, n) ∧
        e.message = addressText address ++ ": " ++ reason := by
  rw [check, htitle, if_neg Bool.false_ne_true] at h
  split at h
  · next hnone =>
    cases h
    refine ⟨[], [], d.root, _, "the root node must invoke a fragment",
      PageNode.nodes_eq_cons [] d.root, List.forall_mem_nil _, fun hfits => ?_, rfl⟩
    exact absurd (hfits.2 rfl) (by simpa using hnone)
  · next hsome =>
    split at h
    · next address f hfault =>
      cases h
      obtain ⟨before, n, after, hnodes, hbefore, hown⟩ := PageNode.firstFault?_eq_some_iff.mp hfault
      refine ⟨before, address, n, after, f.message, hnodes, fun x hx => ⟨hbefore x hx, ?_⟩,
        fun hfits => ?_, rfl⟩
      · -- Only the root has an empty address.
        intro hroot
        have hx : (x.1, x.2) ∈ d.root.nodes [] := hnodes ▸ List.mem_append_left _ hx
        rw [PageNode.mem_nodes_root_iff, hroot] at hx
        have heq : d.root = x.2 := Option.some.inj hx
        simpa [← heq, Option.isSome_iff_ne_none] using hsome
      · rw [PageNode.ownFault?_eq_none_iff.mpr hfits.1] at hown
        cases hown
    · cases h

/-- A declaration passes its check if and only if it has a title, its root is a fragment, and every
node of its tree, however deep, is a fragment with a name or a text and nothing besides. If it has a
title and does not pass, the message names the address of the first node, parents before children,
at which this fails, and no other. -/
theorem check_exact (d : PageDecl) :
    (d.check = .ok () ↔ Text.isBlank d.title = false ∧ d.root.fragment.isSome ∧
      ∀ address n, d.root.at? address = some n → n.Sound) ∧
    ∀ e, d.check = .error e → Text.isBlank d.title = false →
      ∃ before address n after, d.root.nodes [] = before ++ (address, n) :: after ∧
        (∀ x ∈ before, Fits x) ∧ ¬Fits (address, n) ∧ d.root.at? address = some n ∧
        (∃ reason, e.message = addressText address ++ ": " ++ reason) ∧
        ∀ other reason, e.message = addressText other ++ ": " ++ reason → other = address := by
  refine ⟨check_eq_ok_iff, fun e he htitle => ?_⟩
  obtain ⟨before, address, n, after, reason, hnodes, hbefore, hn, hmessage⟩ :=
    exists_of_check_eq_error he htitle
  refine ⟨before, address, n, after, hnodes, hbefore, hn, PageNode.at?_of_nodes_eq hnodes,
    ⟨reason, hmessage⟩, fun other reason' hother => ?_⟩
  exact addressText_inj (hother.symm.trans hmessage)

theorem check_exact_nested :
    let inner : List PageNode :=
      [{ text := some "x" }, { text := some "y", props := [("k", .null)] }]
    let root : PageNode := {
      fragment := some "plate", children := [{ fragment := some "leaf", children := inner }, {}] }
    let d : PageDecl := { title := "A", root }
    let e : PageFault := .node [0, 1] .textWithMore
    d.check = .error e ∧ Text.isBlank d.title = false ∧
      e.message = "root.children[0].children[1]: text nodes take no props or children" ∧
      ∃ before address n after, d.root.nodes [] = before ++ (address, n) :: after ∧
        (∀ x ∈ before, Fits x) ∧ ¬Fits (address, n) ∧ d.root.at? address = some n ∧
        (∃ reason, e.message = addressText address ++ ": " ++ reason) ∧
        ∀ other reason, e.message = addressText other ++ ": " ++ reason → other = address := by
  intro inner root d e
  have he : d.check = .error e := by decide
  have htitle : Text.isBlank d.title = false := by decide
  exact ⟨he, htitle, by decide, (check_exact d).2 e he htitle⟩

end PageDecl

end StaticSite
