import StaticSite.Fragment.File

namespace StaticSite

def Node.callName? : Node → Option String
  | .text _ | .output _ _ _ | .cond _ _ _ _ _ | .each _ _ _ _ => none
  | .invoke call _ _ => some call.name

namespace Template

mutual

/-- A node and those inside it, in the order in which their tags stand. -/
def nodeParts : Node → List Node
  | .text s => [.text s]
  | .output what raw pos => [.output what raw pos]
  | .cond test negate yes no pos => .cond test negate yes no pos :: (nodesParts yes ++ nodesParts no)
  | .each source body no pos => .each source body no pos :: (nodesParts body ++ nodesParts no)
  | .invoke call none pos => [.invoke call none pos]
  | .invoke call (some block) pos => .invoke call (some block) pos :: nodesParts block

def nodesParts : List Node → List Node
  | [] => []
  | n :: ns => nodeParts n ++ nodesParts ns

end

mutual

theorem nodeNames_eq (names : List String) :
    (n : Node) → nodeNames names n = ((nodeParts n).filterMap Node.callName?).foldl addName names
  | .text _ => rfl
  | .output _ _ _ => rfl
  | .cond _ _ yes no _ => by
    rw [nodeNames, nodesNames_eq _ no, nodesNames_eq names yes]
    simp [nodeParts, List.filterMap_cons, Node.callName?]
  | .each _ body no _ => by
    rw [nodeNames, nodesNames_eq _ no, nodesNames_eq names body]
    simp [nodeParts, List.filterMap_cons, Node.callName?]
  | .invoke _ none _ => rfl
  | .invoke _ (some block) _ => by
    rw [nodeNames, nodesNames_eq _ block]
    simp [nodeParts, Node.callName?]

theorem nodesNames_eq (names : List String) :
    (ns : List Node) →
      nodesNames names ns = ((nodesParts ns).filterMap Node.callName?).foldl addName names
  | [] => rfl
  | n :: ns => by
    rw [nodesNames, nodesNames_eq _ ns, nodeNames_eq names n]
    simp [nodesParts]

end

theorem mem_addName {names : List String} {name x : String} :
    x ∈ addName names name ↔ x ∈ names ∨ x = name := by
  rw [addName]
  split
  · next h =>
    rw [List.contains_iff_mem] at h
    exact ⟨.inl, fun hx => hx.elim id fun hx => hx ▸ h⟩
  · simp

theorem mem_foldl_addName {more names : List String} {x : String} :
    x ∈ more.foldl addName names ↔ x ∈ names ∨ x ∈ more := by
  induction more generalizing names with
  | nil => simp
  | cons name more ih => simp [ih, mem_addName, or_assoc]

theorem mem_invocations {t : Template} {name : String} :
    name ∈ t.invocations ↔ name ∈ (nodesParts t.nodes).filterMap Node.callName? := by
  simp [invocations, nodesNames_eq, mem_foldl_addName]

mutual

def nodeNesting : Node → Nat
  | .text _ => 0
  | .output _ _ _ => 0
  | .cond _ _ yes no _ => max (nodesNesting yes) (nodesNesting no)
  | .each _ body no _ => max (nodesNesting body) (nodesNesting no)
  | .invoke _ none _ => 1
  | .invoke _ (some block) _ => nodesNesting block + 1

def nodesNesting : List Node → Nat
  | [] => 0
  | n :: ns => max (nodeNesting n) (nodesNesting ns)

end

end Template

namespace Fragment

def nesting (f : Fragment) : Nat :=
  match f.body with
  | .template t => Template.nodesNesting t.nodes
  | .native _ => 1

structure Declared (f : Fragment) (t : Template) : Prop where
  body_eq : f.body = .template t
  calls_declared : ∀ call block pos, .invoke call block pos ∈ Template.nodesParts t.nodes →
    call.name ∈ f.dependencies

def Parsed (f : Fragment) : Prop := ∃ content name file, Fragment.parse content name file = .ok f

theorem parse_of_split {content name body : String} {file : Path} {m : FragmentMeta} {line : Nat}
    {t : Template} (hs : splitFile content file = .ok (m, body, line))
    (ht : Template.parse body file.text line = .ok t) :
    parse content name file =
      let f : Fragment := {
        name := m.name.getD name, tier := m.tier, defaults := m.defaults, classes := m.classes
        body := .template t }
      .ok ((f.addDependencies m.depends).addDependencies t.invocations) := by
  rw [parse, hs]
  simp only [bind, Except.bind, ht]
  rfl

theorem Parsed.declared {f : Fragment} (h : f.Parsed) : ∃ t, f.Declared t := by
  obtain ⟨content, name, file, h⟩ := h
  cases hs : splitFile content file with
  | error e =>
    rw [parse, hs] at h
    cases h
  | ok parts =>
    obtain ⟨m, body, line⟩ := parts
    cases ht : Template.parse body file.text line with
    | error e =>
      simp only [parse, hs, bind, Except.bind, ht] at h
      cases h
    | ok t =>
      rw [parse_of_split hs ht] at h
      cases h
      refine ⟨t, rfl, fun call block pos hmem => ?_⟩
      have hname : call.name ∈ t.invocations :=
        Template.mem_invocations.mpr (List.mem_filterMap.mpr ⟨_, hmem, rfl⟩)
      exact Template.mem_foldl_addName.mpr (.inr hname)

def badge : Fragment where
  name := "badge"
  body := .template ⟨"badge", [.text "<b>", .output .children false ⟨1, 4⟩, .text "</b>"]⟩

def card : Fragment where
  name := "card"
  dependencies := ["badge"]
  body := .template ⟨"card",
    [.invoke ⟨"badge", none, []⟩ (some [.output .children false ⟨1, 13⟩]) ⟨1, 1⟩]⟩

theorem parsed_badge : badge.Parsed := by
  have hs : splitFile "<b>{{children}}</b>" (.ofText "badge") =
    .ok ({}, "<b>{{children}}</b>", 1) := rfl
  have ht : Template.parse "<b>{{children}}</b>" (Path.ofText "badge").text 1 =
    .ok ⟨"badge", [.text "<b>", .output .children false ⟨1, 4⟩, .text "</b>"]⟩ := rfl
  exact ⟨_, "badge", _, parse_of_split hs ht⟩

theorem parsed_card : card.Parsed := by
  have hs : splitFile "{{#> badge}}{{children}}{{/badge}}" (.ofText "card") =
    .ok ({}, "{{#> badge}}{{children}}{{/badge}}", 1) := rfl
  have ht : Template.parse "{{#> badge}}{{children}}{{/badge}}" (Path.ofText "card").text 1 =
    .ok ⟨"card", [.invoke ⟨"badge", none, []⟩ (some [.output .children false ⟨1, 13⟩]) ⟨1, 1⟩]⟩ :=
      rfl
  exact ⟨_, "card", _, parse_of_split hs ht⟩

end Fragment

end StaticSite
