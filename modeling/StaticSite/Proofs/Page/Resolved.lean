import StaticSite.Page.Tree
import StaticSite.Proofs.Page.Address
import StaticSite.Proofs.Registry.Entered
import StaticSite.Proofs.Render.Run
import StaticSite.Proofs.Template.Nodes

namespace StaticSite

def FragmentError.inContent : FragmentError → RenderError
  | render e => e
  | e => .raised "" none (.reported e.message)

namespace PageNode

mutual

/-- The markup of a declared tree. Each fragment is rendered by its name, and has as its child
content what its children come to one after the other, if it has any. -/
def render (r : Registry) : PageNode → Run σ FragmentError String
  | ⟨none, text, _, _⟩ => pure (Html.escape (text.getD ""))
  | ⟨some name, _, props, children⟩ =>
    let content : Run σ FragmentError String := String.join <$> renderEach r children
    r.render name props
      (if children.isEmpty then none else some (content.mapError FragmentError.inContent).onSecond)

def renderEach (r : Registry) : List PageNode → Run σ FragmentError (List String)
  | [] => pure []
  | n :: ns => do
    let html ← n.render r
    return html :: (← renderEach r ns)

end

end PageNode

namespace PageTree

variable {r : Registry}

theorem resolve_found {address : List Nat} {name : String} {id : r.Id} (h : r.id? name = some id)
    (words : Option String) (props : Props) (children : List PageNode) :
    resolve r address ⟨some name, words, props, children⟩ =
      .fragment id props <$> resolveAll r address 0 children := by
  rw [resolve, Registry.resolve, h]
  rfl

theorem resolve_missing {address : List Nat} {name : String} (h : r.id? name = none)
    (words : Option String) (props : Props) (children : List PageNode) :
    resolve r address ⟨some name, words, props, children⟩ =
      .error (address, .unknown name none) := by
  rw [resolve, Registry.resolve, h]
  rfl

def unknown? (r : Registry) (x : List Nat × PageNode) : Option (List Nat × FragmentError) :=
  match x.2.fragment with
  | some name => if (r.id? name).isNone then some (x.1, .unknown name none) else none
  | none => none

theorem unknown?_eq_none_iff {x : List Nat × PageNode} :
    unknown? r x = none ↔ ∀ name ∈ x.2.fragment, r.id? name ≠ none := by
  unfold unknown?
  cases x.2.fragment <;> simp

theorem unknown?_eq_some_iff {x : List Nat × PageNode} {address : List Nat} {e : FragmentError} :
    unknown? r x = some (address, e) ↔ x.1 = address ∧
      ∃ name ∈ x.2.fragment, r.id? name = none ∧ e = .unknown name none := by
  unfold unknown?
  cases x.2.fragment <;> simp
  tauto

mutual

theorem errorOf?_resolve (address : List Nat) : (n : PageNode) →
    (∀ x ∈ n.nodes address, x.2.Sound) →
    errorOf? (resolve r address n) = (n.nodes address).findSome? (unknown? r)
  | ⟨none, words, props, children⟩, h => by
    have hsound := h _ List.mem_cons_self
    cases hsound
    rfl
  | ⟨some name, words, props, children⟩, h => by
    rw [PageNode.nodes, List.findSome?_cons]
    cases hid : r.id? name with
    | none =>
      have hunknown : unknown? r (address, ⟨some name, words, props, children⟩) =
          some (address, .unknown name none) := by simp [unknown?, hid]
      rw [resolve_missing hid, hunknown]
      rfl
    | some id =>
      have hknown : unknown? r (address, ⟨some name, words, props, children⟩) = none := by
        simp [unknown?, hid]
      rw [resolve_found hid, errorOf?_map, hknown,
        errorOf?_resolveAll address 0 children fun x hx => h x (List.mem_cons_of_mem _ hx)]

theorem errorOf?_resolveAll (address : List Nat) (i : Nat) : (ns : List PageNode) →
    (∀ x ∈ PageNode.nodesFrom address i ns, x.2.Sound) →
    errorOf? (resolveAll r address i ns) =
      (PageNode.nodesFrom address i ns).findSome? (unknown? r)
  | [], _ => rfl
  | n :: ns, h => by
    obtain ⟨hn, hns⟩ := List.forall_mem_append.mp h
    rw [resolveAll, PageNode.nodesFrom, List.findSome?_append, ← errorOf?_resolve _ n hn,
      ← errorOf?_resolveAll address (i + 1) ns hns]
    cases resolve r (address ++ [i]) n with
    | error e => rfl
    | ok t => exact errorOf?_map (t :: ·) _

end

theorem inContent_render (x : Run σ RenderError α) :
    (x.mapError FragmentError.render).mapError FragmentError.inContent = x := by
  funext s
  simp only [Run.mapError]
  obtain ⟨_ | _, _, _⟩ := x s <;> rfl

theorem render_fragment (id : r.Id) (props : Props) (ts : List (PageTree r)) :
    (render (.fragment id props ts) : Run σ _ _) =
      r.renderId id props (if ts.isEmpty then none else some (renderAll ts).onSecond) := by
  cases ts with
  | nil => rw [render, List.isEmpty_nil, if_pos rfl]
  | cons t ts => rw [render, List.isEmpty_cons, if_neg Bool.false_ne_true, renderAll]

theorem isEmpty_of_resolveAll {address : List Nat} {i : Nat} {ns : List PageNode}
    {ts : List (PageTree r)} (h : resolveAll r address i ns = .ok ts) :
    ts.isEmpty = ns.isEmpty := by
  cases ns with
  | nil =>
    cases h
    rfl
  | cons n ns =>
    obtain ⟨t, -, h⟩ := exists_of_bind_eq_ok h
    obtain ⟨ts, -, h⟩ := exists_of_bind_eq_ok h
    cases h
    rfl

mutual

theorem render_of_resolve (σ : Type) (address : List Nat) : (n : PageNode) → (t : PageTree r) →
    resolve r address n = .ok t → (t.render : Run σ _ _).mapError .render = n.render r
  | ⟨none, words, props, children⟩, t, h => by
    cases h
    rw [render, PageNode.render]
    rfl
  | ⟨some name, words, props, children⟩, t, h => by
    cases hid : r.id? name with
    | none =>
      rw [resolve_missing hid] at h
      cases h
    | some id =>
      rw [resolve_found hid] at h
      obtain ⟨ts, hts, h⟩ := exists_of_bind_eq_ok h
      cases h
      rw [render_fragment, renderAll_of_resolveAll σ address 0 children ts hts,
        isEmpty_of_resolveAll hts, PageNode.render, Registry.render, hid]

theorem renderAll_of_resolveAll (σ : Type) (address : List Nat) (i : Nat) : (ns : List PageNode) →
    (ts : List (PageTree r)) → resolveAll r address i ns = .ok ts →
    (renderAll ts : Run σ _ _) =
      (String.join <$> PageNode.renderEach r ns).mapError FragmentError.inContent
  | [], ts, h => by
    cases h
    rw [renderAll, PageNode.renderEach]
    rfl
  | n :: ns, ts, h => by
    obtain ⟨t, ht, h⟩ := exists_of_bind_eq_ok h
    obtain ⟨ts, hts, h⟩ := exists_of_bind_eq_ok h
    cases h
    have hn := congrArg (Run.mapError FragmentError.inContent) (render_of_resolve σ _ n t ht)
    rw [inContent_render] at hn
    have hns := renderAll_of_resolveAll σ address (i + 1) ns ts hts
    rw [renderAll, PageNode.renderEach, hn, hns]
    simp [Run.mapError_bind, Run.mapError_map]

end

open Registry

theorem exists_resolve_iff (hr : r.WellFormed) {n : PageNode}
    (hn : ∀ x ∈ n.nodes [], x.2.Sound) :
    (∃ t, resolve r [] n = .ok t) ↔
      ∀ address m, n.at? address = some m → ∀ name ∈ m.fragment, name ∈ r.names := by
  rw [← errorOf?_eq_none_iff, errorOf?_resolve [] n hn, List.findSome?_eq_none_iff,
    PageNode.forall_mem_nodes_iff]
  simp only [unknown?_eq_none_iff, ne_eq, hr.id?_eq_none_iff, not_not]

theorem exists_of_resolve_eq_error (hr : r.WellFormed) {n : PageNode}
    (hn : ∀ x ∈ n.nodes [], x.2.Sound) {address : List Nat} {e : FragmentError}
    (h : resolve r [] n = .error (address, e)) :
    ∃ before m name after, n.nodes [] = before ++ (address, m) :: after ∧
      (∀ x ∈ before, ∀ name ∈ x.2.fragment, name ∈ r.names) ∧ m.fragment = some name ∧
      name ∉ r.names ∧ e = .unknown name none := by
  rw [← errorOf?_eq_some_iff, errorOf?_resolve [] n hn, List.findSome?_eq_some_iff] at h
  obtain ⟨before, ⟨a, m⟩, after, hnodes, hunknown, hbefore⟩ := h
  obtain ⟨rfl, name, hname, hmissing, rfl⟩ := unknown?_eq_some_iff.mp hunknown
  refine ⟨before, m, name, after, hnodes, fun x hx name' hname' => ?_, hname,
    hr.id?_eq_none_iff.mp hmissing, rfl⟩
  have hfound := unknown?_eq_none_iff.mp (hbefore x hx) name' hname'
  rwa [ne_eq, hr.id?_eq_none_iff, not_not] at hfound

/-- A declared tree that passes its check resolves if and only if all fragments in it, however deep,
are there. Otherwise the first node, parents before children, whose fragment is not there is
reported with its address and the name of the fragment. The tree that it resolves to renders, from
any state, to what the declared one does by the names of its fragments. -/
theorem resolve_exact (fs : List Fragment) {n : PageNode} (hn : n.firstFault? [] = none) :
    ((∃ t, resolve (entered fs) [] n = .ok t) ↔
      ∀ address m, n.at? address = some m → ∀ name ∈ m.fragment, name ∈ (entered fs).names) ∧
    (∀ address e, resolve (entered fs) [] n = .error (address, e) →
      ∃ before m name after, n.nodes [] = before ++ (address, m) :: after ∧
        (∀ x ∈ before, ∀ name ∈ x.2.fragment, name ∈ (entered fs).names) ∧
        n.at? address = some m ∧ m.fragment = some name ∧ name ∉ (entered fs).names ∧
        e = .unknown name none) ∧
    ∀ t, resolve (entered fs) [] n = .ok t → ∀ σ : Type,
      (t.render : Run σ RenderError String).mapError .render = n.render (entered fs) := by
  have hr := wellFormed_entered fs
  have hsound : ∀ x ∈ n.nodes [], x.2.Sound :=
    PageNode.forall_mem_nodes_iff.mpr (PageNode.firstFault?_eq_none_iff.mp hn)
  refine ⟨exists_resolve_iff hr hsound, fun address e h => ?_, fun t ht σ => ?_⟩
  · obtain ⟨before, m, name, after, hnodes, hbefore, hname, hmissing, he⟩ :=
      exists_of_resolve_eq_error hr hsound h
    exact ⟨before, m, name, after, hnodes, hbefore, PageNode.at?_of_nodes_eq hnodes, hname,
      hmissing, he⟩
  · exact render_of_resolve σ [] n t ht

theorem resolve_exact_card :
    let fs := [Fragment.badge, Fragment.card]
    let label : PageNode := { text := some "a & b" }
    let found : PageNode := {
      fragment := some "card"
      children := [{ fragment := some "badge", children := [label] }, label] }
    let lost : PageNode := {
      fragment := some "card"
      children := [{ fragment := some "badge", children := [label, { fragment := some "note" }] },
        { fragment := some "memo" }] }
    found.firstFault? [] = none ∧ lost.firstFault? [] = none ∧
      (∃ t, resolve (entered fs) [] found = .ok t ∧
        (t.render ()).result = .ok "<b><b>a &amp; b</b>a &amp; b</b>" ∧ ∀ σ : Type,
          (t.render : Run σ RenderError String).mapError .render = found.render (entered fs)) ∧
      resolve (entered fs) [] lost = .error ([0, 1], .unknown "note" none) ∧
      ∃ before m name after, lost.nodes [] = before ++ ([0, 1], m) :: after ∧
        (∀ x ∈ before, ∀ name ∈ x.2.fragment, name ∈ (entered fs).names) ∧
        lost.at? [0, 1] = some m ∧ m.fragment = some name ∧ name ∉ (entered fs).names ∧
        FragmentError.unknown "note" none = .unknown name none := by
  intro fs label found lost
  have hfound : found.firstFault? [] = none := by decide
  have hlost : lost.firstFault? [] = none := by decide
  obtain ⟨-, -, hrender⟩ := resolve_exact fs hfound
  have herror : resolve (entered fs) [] lost = .error ([0, 1], .unknown "note" none) := rfl
  obtain ⟨-, hmissing, -⟩ := resolve_exact fs hlost
  exact ⟨hfound, hlost, ⟨_, rfl, rfl, hrender _ rfl⟩, herror, hmissing _ _ herror⟩

end PageTree

end StaticSite
