import Mathlib.Data.List.Basic
import StaticSite.Proofs.Render.Moved

namespace StaticSite

def Round.unnumbered (r : Round) : Round := { r with index := 0, count := 0 }

def Reference.asksNumber (x : Reference) : Bool :=
  x.root = .index || x.root = .first || x.root = .last

def Argument.asksNumber : Argument → Bool
  | .reference x => x.asksNumber
  | .literal _ => false

def Call.asksNumber (c : Call) : Bool :=
  c.base.any Reference.asksNumber || c.args.any fun a => a.2.asksNumber

namespace Template

mutual

/-- A loop has rounds of its own, so that nothing in its body asks for those around it. -/
def nodeAsksNumber : Node → Bool
  | .text _ => false
  | .output (.reference x) _ _ => x.asksNumber
  | .output .children _ _ | .output .classes _ _ | .output .accessible _ _
  | .output .attributes _ _ => false
  | .cond test _ yes no _ => test.asksNumber || nodesAskNumber yes || nodesAskNumber no
  | .each source _ no _ => source.asksNumber || nodesAskNumber no
  | .invoke c none _ => c.asksNumber
  | .invoke c (some block) _ => c.asksNumber || nodesAskNumber block

def nodesAskNumber : List Node → Bool
  | [] => false
  | n :: ns => nodeAsksNumber n || nodesAskNumber ns

end

end Template

section Rounds

variable {rounds rounds' : List Round}

structure SameRounds (asks : Bool) (rounds rounds' : List Round) : Prop where
  unnumbered : rounds.map Round.unnumbered = rounds'.map Round.unnumbered
  head : asks = true → rounds.head? = rounds'.head?

theorem Reference.inScope?_unnumbered (config : Props) (segments : List String)
    (rounds : List Round) :
    inScope? config segments (rounds.map Round.unnumbered) = inScope? config segments rounds := by
  induction rounds with
  | nil => rfl
  | cons r rounds ih =>
    simp only [List.map_cons, inScope?, ih]
    rfl

theorem Reference.lookup?_unnumbered {x : Reference} (hx : x.asksNumber = false)
    (rounds : List Round) (config : Props) :
    x.lookup? (rounds.map Round.unnumbered) config = x.lookup? rounds config := by
  obtain ⟨text, root, segments⟩ := x
  cases root with
  | index | first | last => cases hx
  | scope => exact inScope?_unnumbered config segments rounds
  | this | key => cases rounds <;> rfl

theorem Reference.lookup?_of_head {x : Reference} (hx : x.asksNumber = true)
    (h : rounds.head? = rounds'.head?) (config : Props) :
    x.lookup? rounds config = x.lookup? rounds' config := by
  obtain ⟨text, root, segments⟩ := x
  cases root with
  | index | first | last => simp only [lookup?, h]
  | scope | this | key => cases hx

theorem SameRounds.lookup?_eq {x : Reference} (h : SameRounds x.asksNumber rounds rounds')
    (config : Props) : x.lookup? rounds config = x.lookup? rounds' config := by
  cases hx : x.asksNumber with
  | false => rw [← Reference.lookup?_unnumbered hx, h.unnumbered, Reference.lookup?_unnumbered hx]
  | true => exact Reference.lookup?_of_head hx (h.head hx) config

theorem SameRounds.mono {asks asks' : Bool} (h : SameRounds asks rounds rounds')
    (hasks : asks' = true → asks = true) : SameRounds asks' rounds rounds' :=
  ⟨h.unnumbered, fun ha => h.head (hasks ha)⟩

theorem SameRounds.left {asks asks' : Bool} (h : SameRounds (asks || asks') rounds rounds') :
    SameRounds asks rounds rounds' := h.mono fun ha => by rw [ha, Bool.true_or]

theorem SameRounds.right {asks asks' : Bool} (h : SameRounds (asks || asks') rounds rounds') :
    SameRounds asks' rounds rounds' := h.mono fun ha => by rw [ha, Bool.or_true]

theorem SameRounds.cons {asks : Bool} (h : SameRounds asks rounds rounds') (r : Round)
    (asks' : Bool) : SameRounds asks' (r :: rounds) (r :: rounds') :=
  ⟨by rw [List.map_cons, List.map_cons, h.unnumbered], fun _ => rfl⟩

end Rounds

namespace Scope

section Congruence

variable {render : Renderer} {t : Template} {s : Scope σ} {rounds rounds' : List Round}

theorem output_sameRounds {what : Output} {raw : Bool} {pos : Position} {here : Location}
    (h : SameRounds (Template.nodeAsksNumber (.output what raw pos)) rounds rounds') :
    s.output here rounds raw what = s.output here rounds' raw what := by
  cases what with
  | reference x =>
    have hx : SameRounds x.asksNumber rounds rounds' := h
    rw [output, output, hx.lookup?_eq]
  | children | classes | accessible | attributes => rfl

theorem rounds_sameRounds {x : Reference} (h : SameRounds x.asksNumber rounds rounds')
    (here : Location) : s.rounds here rounds x = s.rounds here rounds' x := by
  unfold Scope.rounds
  rw [h.lookup?_eq]

theorem holds_sameRounds {x : Reference} (h : SameRounds x.asksNumber rounds rounds') :
    s.holds rounds x = s.holds rounds' x := by
  rw [holds, holds, h.lookup?_eq]

theorem callProps_sameRounds {c : Call} (h : SameRounds c.asksNumber rounds rounds')
    (here : Location) : s.callProps here rounds c = s.callProps here rounds' c := by
  obtain ⟨name, base, args⟩ := c
  have hbase : s.baseProps here rounds ⟨name, base, args⟩ =
      s.baseProps here rounds' ⟨name, base, args⟩ := by
    cases base with
    | none => rfl
    | some x =>
      have hx : SameRounds x.asksNumber rounds rounds' := h.left
      simp only [baseProps, hx.lookup?_eq]
  have hargument : ∀ props, ∀ a ∈ args,
      s.addArgument rounds props a = s.addArgument rounds' props a := by
    rintro props ⟨key, argument⟩ hmem
    cases argument with
    | literal v => rfl
    | reference x =>
      have hx : SameRounds x.asksNumber rounds rounds' :=
        h.right.mono fun hx => List.any_eq_true.mpr ⟨_, hmem, hx⟩
      simp only [addArgument, hx.lookup?_eq]
  have hfold (props : Props) :
      args.foldl (s.addArgument rounds) props = args.foldl (s.addArgument rounds') props :=
    List.foldl_ext _ _ props hargument
  simp only [callProps, hbase, hfold]

mutual

theorem evalNode_sameRounds : {rounds rounds' : List Round} → (n : Node) →
    SameRounds (Template.nodeAsksNumber n) rounds rounds' →
      evalNode render t s rounds n = evalNode render t s rounds' n
  | _, _, .text _, _ => by rw [evalNode, evalNode]
  | _, _, .output what raw pos, h => by rw [evalNode, evalNode, output_sameRounds h]
  | _, _, .cond test negate yes no pos, h => by
    rw [Template.nodeAsksNumber] at h
    rw [evalNode, evalNode, holds_sameRounds h.left.left, evalNodes_sameRounds yes h.left.right,
      evalNodes_sameRounds no h.right]
  | _, _, .each source body no pos, h => by
    rw [Template.nodeAsksNumber] at h
    -- The body may ask for a number: it is that of `r`, on both sides.
    have hbody (r : Round) := evalNodes_sameRounds body (h.cons r _)
    rw [evalNode, evalNode, rounds_sameRounds h.left, evalNodes_sameRounds no h.right]
    simp only [hbody]
  | _, _, .invoke call none pos, h => by
    rw [Template.nodeAsksNumber] at h
    rw [evalNode, evalNode, callProps_sameRounds h]
  | _, _, .invoke call (some block) pos, h => by
    rw [Template.nodeAsksNumber] at h
    rw [evalNode, evalNode, callProps_sameRounds h.left, evalNodes_sameRounds block h.right]

theorem evalNodes_sameRounds : {rounds rounds' : List Round} → (ns : List Node) →
    SameRounds (Template.nodesAskNumber ns) rounds rounds' →
      evalNodes render t s rounds ns = evalNodes render t s rounds' ns
  | _, _, [], _ => by rw [evalNodes, evalNodes]
  | _, _, n :: ns, h => by
    rw [Template.nodesAskNumber] at h
    rw [evalNodes, evalNodes, evalNode_sameRounds n h.left, evalNodes_sameRounds ns h.right]

end

end Congruence

section Each

variable {render : Renderer} {t : Template} {s : Scope σ} {outer : List Round}

theorem map_roundsOf (xs : List Value) :
    (roundsOf (xs.map fun v => (none, v))).map Round.unnumbered = xs.map fun v => ⟨v, 0, none, 0⟩ := by
  refine List.ext_getElem (by simp [roundsOf]) fun i _ _ => ?_
  simp [roundsOf, Round.unnumbered]

theorem evalNode_each {x : Reference} {xs : List Value}
    (hx : x.lookup? outer s.config = some (.list xs)) (hne : xs ≠ []) {body : List Node}
    (hbody : Template.nodesAskNumber body = false) (no : List Node) (pos : Position) :
    evalNode render t s outer (.each x body no pos) =
      String.join <$> xs.mapM fun v => evalNodes render t s (⟨v, 0, none, 0⟩ :: outer) body := by
  have hrounds : s.rounds (t.locate pos) outer x =
      .ok (roundsOf (xs.map fun v => (none, v))) := by simp [Scope.rounds, hx, entries?]
  have hround (r : Round) : evalNodes render t s (r :: outer) body =
      evalNodes render t s (r.unnumbered :: outer) body :=
    evalNodes_sameRounds body ⟨rfl, fun h => by simp [hbody] at h⟩
  have hall : (roundsOf (xs.map fun v => (none, v))).mapM
        (fun r => evalNodes render t s (r :: outer) body) =
      xs.mapM fun v => evalNodes render t s (⟨v, 0, none, 0⟩ :: outer) body := by
    rw [funext hround]
    change (roundsOf _).mapM ((fun r => evalNodes render t s (r :: outer) body) ∘ _) = _
    rw [← List.mapM_map, map_roundsOf, List.mapM_map]
    rfl
  have hsome : (roundsOf (xs.map fun v => (none, v))).isEmpty = false := by simp [roundsOf, hne]
  rw [evalNode, hrounds, Run.ofExcept_bind, hall, hsome, bind_pure_comp]
  rfl

/-- A loop over two lists put together is a loop over the one and then one over the other, with copies
of its body, if the body does not ask for the number of a round and no fragment goes on after a failure
of its child content. What it would go on with may tell of places, which are not those of the copies. -/
theorem evalNodes_each_append (s : Scope σ) (hs : ∀ f ∈ s.registry.fragments, f.PassesFailures)
    (t t' : Template) {outer : List Round} {a b ab : Reference} {xs ys : List Value}
    (ha : a.lookup? outer s.config = some (.list xs))
    (hb : b.lookup? outer s.config = some (.list ys))
    (hab : ab.lookup? outer s.config = some (.list (xs ++ ys))) (hxs : xs ≠ []) (hys : ys ≠ [])
    {body bodya bodyb : List Node} (hbody : Template.nodesAskNumber body = false)
    (hbodya : Template.nodesUnplaced bodya = Template.nodesUnplaced body)
    (hbodyb : Template.nodesUnplaced bodyb = Template.nodesUnplaced body) (no noa nob : List Node)
    (pos posa posb : Position) :
    let render := s.registry.renderFragment
    (evalNodes render t s outer [.each ab body no pos]).Alike RenderStop.fault
      (evalNodes render t' s outer [.each a bodya noa posa, .each b bodyb nob posb]) := by
  intro render
  have heq : evalNodes render t s outer [.each ab body no pos] =
      evalNodes render t s outer [.each a body noa posa, .each b body nob posb] := by
    have happend : xs ++ ys ≠ [] := List.append_ne_nil_of_left_ne_nil hxs ys
    rw [evalNodes_singleton, evalNodes, evalNodes_singleton, evalNode_each hab happend hbody,
      evalNode_each ha hxs hbody, evalNode_each hb hys hbody, List.mapM_append]
    simp [String.join_append]
  rw [heq]
  have hp : Option.Rel (Run.Alike RenderError.fault) s.producer s.producer := by
    cases s.producer with
    | none => exact .none
    | some p => exact .some (.refl _ p)
  refine evalNodes_moved (r := s.registry) hp (invoke_alike (Registry.carries_renderFragment hs))
    outer _ ?_
  simp only [Template.nodesUnplaced, Template.nodeUnplaced, hbodya, hbodyb]

theorem evalNodes_each_append_nested :
    let t : Template := ⟨"badge", []⟩
    let s : Scope Unit := (Registry.entered [.badge]).scope .badge
      [("a", .list [.list [.null]]), ("b", .list [.list [.null, .null]]),
        ("ab", .list [.list [.null], .list [.null, .null]])] none
    let body (pos : Position) : List Node :=
      [.each ⟨"this", .this, []⟩ [.output (.reference ⟨"@index", .index, []⟩) false pos] [] pos]
    let loop (name : String) (pos : Position) : Node :=
      .each ⟨name, .scope, [name]⟩ (body pos) [] pos
    let one := evalNodes s.registry.renderFragment t s [] [loop "ab" ⟨1, 1⟩]
    (one ({}, ())).result = .ok "001" ∧
      one.Alike RenderStop.fault
        (evalNodes s.registry.renderFragment t s [] [loop "a" ⟨1, 1⟩, loop "b" ⟨2, 1⟩]) := by
  intro t s body loop one
  have hs : ∀ f ∈ s.registry.fragments, f.PassesFailures := by
    intro f hf actions hbody
    obtain rfl : f = .badge := by simpa using Registry.mem_of_mem_entered f hf
    cases hbody
  have ha : Reference.lookup? ⟨"a", .scope, ["a"]⟩ [] s.config =
      some (.list [.list [.null]]) := rfl
  have hb : Reference.lookup? ⟨"b", .scope, ["b"]⟩ [] s.config =
      some (.list [.list [.null, .null]]) := rfl
  have hab : Reference.lookup? ⟨"ab", .scope, ["ab"]⟩ [] s.config =
      some (.list [.list [.null], .list [.null, .null]]) := rfl
  have hbody : Template.nodesAskNumber (body ⟨1, 1⟩) = false := rfl
  have hcopy : Template.nodesUnplaced (body ⟨2, 1⟩) = Template.nodesUnplaced (body ⟨1, 1⟩) := rfl
  exact ⟨rfl, evalNodes_each_append s hs t t ha hb hab (List.cons_ne_nil _ _) (List.cons_ne_nil _ _)
    hbody rfl hcopy [] [] [] ⟨1, 1⟩ ⟨1, 1⟩ ⟨2, 1⟩⟩

end Each

end Scope

def Fragment.told : Fragment where
  name := "told"
  body := .native [.tryChildren]

def Fragment.telling : Fragment where
  name := "telling"
  dependencies := ["told"]
  body := .template ⟨"telling", []⟩

namespace Scope

/-- The items have no text, which is told with the place where it was asked for. -/
theorem evalNodes_each_append_told :
    let s : Scope Unit := (Registry.entered [.told, .telling]).scope .telling
      [("a", .list [.list []]), ("b", .list [.list []]), ("ab", .list [.list [], .list []])] none
    let body (column : Nat) : List Node := [.invoke ⟨"told", none, []⟩
      (some [.output (.reference ⟨"this", .this, []⟩) false ⟨1, column + 11⟩]) ⟨1, column⟩]
    let each (name : String) (column inner : Nat) : Node :=
      .each ⟨name, .scope, [name]⟩ (body inner) [] ⟨1, column⟩
    let eval (ns : List Node) :=
      (evalNodes s.registry.renderFragment ⟨"telling", ns⟩ s [] ns ({}, ())).result
    Template.nodesAskNumber (body 13) = false ∧
      Template.parse ("\x7b\x7b#each ab\x7d\x7d\x7b\x7b#> told\x7d\x7d\x7b\x7b this \x7d\x7d" ++
        "\x7b\x7b/told\x7d\x7d\x7b\x7b/each\x7d\x7d") "telling" 1 =
          .ok ⟨"telling", [each "ab" 1 13]⟩ ∧
      Template.parse ("\x7b\x7b#each a\x7d\x7d\x7b\x7b#> told\x7d\x7d\x7b\x7b this \x7d\x7d" ++
        "\x7b\x7b/told\x7d\x7d\x7b\x7b/each\x7d\x7d\x7b\x7b#each b\x7d\x7d\x7b\x7b#> told\x7d\x7d" ++
        "\x7b\x7b this \x7d\x7d\x7b\x7b/told\x7d\x7d\x7b\x7b/each\x7d\x7d") "telling" 1 =
          .ok ⟨"telling", [each "a" 1 12, each "b" 51 62]⟩ ∧
      (eval [each "ab" 1 13]).isOk ∧ (eval [each "a" 1 12, each "b" 51 62]).isOk ∧
      (eval [each "ab" 1 13]).toOption ≠ (eval [each "a" 1 12, each "b" 51 62]).toOption := by
  intro s body each eval
  refine ⟨rfl, rfl, rfl, ?_, ?_, ?_⟩ <;> decide +kernel

end Scope

end StaticSite
