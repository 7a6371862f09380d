import StaticSite.Proofs.Outcome
import StaticSite.Proofs.Template.Nodes

namespace StaticSite.Template

/-- A lexeme whose content has been read. What a tree does not keep, the place of an `else` and of a
closing tag, is left out. -/
inductive Tag
  | text (s : String)
  | output (what : Output) (raw : Bool) (pos : Position)
  | call (c : Call) (pos : Position)
  | enter (o : Opening) (pos : Position)
  | otherwise
  | leave (name : String)

def Lexeme.tag : Lexeme → Except SyntaxFault Tag
  | .text s => .ok (.text s)
  | .output content raw pos => do return .output (← Template.output content) raw pos
  | .openBlock keyword content pos => do
    return .enter (Builder.blockOpening keyword (← blockReference content)) pos
  | .openCall content pos => do return .enter (.invoke (← Template.call content)) pos
  | .call content pos => do return .call (← Template.call content) pos
  | .otherwise _ => .ok .otherwise
  | .close name _ => .ok (.leave name)

def Opening.branches : Opening → Bool
  | .cond _ _ | .each _ => true
  | .invoke _ => false

inductive Nested : List Tag → Prop
  | nil : Nested []
  | text (s : String) : Nested ts → Nested (.text s :: ts)
  | output (what : Output) (raw : Bool) (pos : Position) :
    Nested ts → Nested (.output what raw pos :: ts)
  | call (c : Call) (pos : Position) : Nested ts → Nested (.call c pos :: ts)
  | block (o : Opening) (pos : Position) :
    Nested body → Nested ts → Nested (.enter o pos :: (body ++ .leave o.name :: ts))
  | branches (o : Opening) (pos : Position) : o.branches → Nested yes → Nested no → Nested ts →
    Nested (.enter o pos :: (yes ++ .otherwise :: (no ++ .leave o.name :: ts)))

inductive Spells : List Tag → List Node → Prop
  | nil : Spells [] []
  | text (s : String) : Spells ts ns → Spells (.text s :: ts) (.text s :: ns)
  | output (what : Output) (raw : Bool) (pos : Position) :
    Spells ts ns → Spells (.output what raw pos :: ts) (.output what raw pos :: ns)
  | call (c : Call) (pos : Position) :
    Spells ts ns → Spells (.call c pos :: ts) (.invoke c none pos :: ns)
  | block (o : Opening) (pos : Position) : Spells body ms → Spells ts ns →
    Spells (.enter o pos :: (body ++ .leave o.name :: ts)) (Block.node ⟨o, pos, ms, none⟩ :: ns)
  | branches (o : Opening) (pos : Position) :
    o.branches → Spells yes ms → Spells no ks → Spells ts ns →
    Spells (.enter o pos :: (yes ++ .otherwise :: (no ++ .leave o.name :: ts)))
      (Block.node ⟨o, pos, ms, some ks⟩ :: ns)

theorem Spells.nested (h : Spells ts ns) : Nested ts := by
  induction h with
  | nil => exact .nil
  | text s _ ih => exact .text s ih
  | output what raw pos _ ih => exact .output what raw pos ih
  | call c pos _ ih => exact .call c pos ih
  | block o pos _ _ ihbody ih => exact .block o pos ihbody ih
  | branches o pos ho _ _ _ ihyes ihno ih => exact .branches o pos ho ihyes ihno ih

theorem Nested.exists_spells (h : Nested ts) : ∃ ns, Spells ts ns := by
  induction h with
  | nil => exact ⟨_, .nil⟩
  | text s _ ih => exact ih.imp' _ fun _ => .text s
  | output what raw pos _ ih => exact ih.imp' _ fun _ => .output what raw pos
  | call c pos _ ih => exact ih.imp' _ fun _ => .call c pos
  | block o pos _ _ ihbody ih =>
    obtain ⟨nodes, hnodes⟩ := ihbody
    exact ih.imp' _ fun _ => .block o pos hnodes
  | branches o pos ho _ _ _ ihyes ihno ih =>
    obtain ⟨nodes, hnodes⟩ := ihyes
    obtain ⟨others, hothers⟩ := ihno
    exact ih.imp' _ fun _ => .branches o pos ho hnodes hothers

theorem Spells.append (h : Spells ts ns) (h' : Spells us ms) : Spells (ts ++ us) (ns ++ ms) := by
  induction h with
  | nil => exact h'
  | text s _ ih => exact .text s ih
  | output what raw pos _ ih => exact .output what raw pos ih
  | call c pos _ ih => exact .call c pos ih
  | block o pos hbody _ _ ih => simpa using Spells.block o pos hbody ih
  | branches o pos ho hyes hno _ _ _ ih => simpa using Spells.branches o pos ho hyes hno ih

namespace Builder

def take (b : Builder) : Tag → Except SyntaxFault Builder
  | .text s => .ok (b.push (.text s))
  | .output what raw pos => .ok (b.push (.output what raw pos))
  | .call c pos => .ok (b.push (.invoke c none pos))
  | .enter o pos => .ok (b.enter o pos)
  | .otherwise => b.turn
  | .leave name => b.leave name

theorem read_eq (b : Builder) (l : Lexeme) : b.read l = l.tag >>= b.take := by
  cases l with
  | text s => rfl
  | output content raw pos => simp only [read, Lexeme.tag]; cases Template.output content <;> rfl
  | openBlock keyword content pos =>
    simp only [read, Lexeme.tag]; cases blockReference content <;> rfl
  | openCall content pos => simp only [read, Lexeme.tag]; cases Template.call content <;> rfl
  | call content pos => simp only [read, Lexeme.tag]; cases Template.call content <;> rfl
  | otherwise pos => rfl
  | close name pos => rfl

theorem step_eq_ok_iff {b b' : Builder} {l : Lexeme} :
    b.step l = .ok b' ↔ ∃ t, l.tag = .ok t ∧ b.take t = .ok b' := by
  rw [step, read_eq, ← bind_eq_ok_iff]
  constructor
  · exact eq_ok_of_mapError
  · intro h
    rw [h]
    rfl

theorem foldlM_step_eq_ok_iff {ls : List Lexeme} {b b' : Builder} :
    ls.foldlM step b = .ok b' ↔
      ∃ ts, ls.mapM Lexeme.tag = .ok ts ∧ ts.foldlM take b = .ok b' := by
  induction ls generalizing b with
  | nil => simp [pure, Except.pure]
  | cons l ls ih =>
    simp only [List.foldlM_cons, List.mapM_cons, bind_eq_ok_iff, step_eq_ok_iff, ih]
    constructor
    · rintro ⟨c, ⟨t, ht, hc⟩, ts, hts, h⟩
      exact ⟨t :: ts, ⟨t, ht, ts, hts, rfl⟩, by simp [bind_eq_ok_iff, hc, h]⟩
    · rintro ⟨_, ⟨t, ht, ts, hts, hcons⟩, h⟩
      cases hcons
      rw [List.foldlM_cons, bind_eq_ok_iff] at h
      obtain ⟨c, hc, h⟩ := h
      exact ⟨c, ⟨t, ht, hc⟩, ts, hts, h⟩

def pushAll (b : Builder) (ns : List Node) : Builder := ns.foldl push b

@[simp] theorem pushAll_nil (b : Builder) : b.pushAll [] = b := rfl

@[simp] theorem pushAll_cons (b : Builder) (n : Node) (ns : List Node) :
    b.pushAll (n :: ns) = (b.push n).pushAll ns := rfl

theorem pushAll_root (nodes ns : List Node) :
    pushAll { nodes } ns = { nodes := nodes ++ ns } := by
  induction ns generalizing nodes with
  | nil => simp
  | cons n ns ih => simp [push, ih]

theorem pushAll_body (root : List Node) (outer : List Block) (o : Opening) (pos : Position)
    (nodes ns : List Node) :
    pushAll ⟨root, ⟨o, pos, nodes, none⟩ :: outer⟩ ns =
      ⟨root, ⟨o, pos, nodes ++ ns, none⟩ :: outer⟩ := by
  induction ns generalizing nodes with
  | nil => simp
  | cons n ns ih => simp [push, Block.push, ih]

theorem pushAll_no (root : List Node) (outer : List Block) (o : Opening) (pos : Position)
    (nodes no ns : List Node) :
    pushAll ⟨root, ⟨o, pos, nodes, some no⟩ :: outer⟩ ns =
      ⟨root, ⟨o, pos, nodes, some (no ++ ns)⟩ :: outer⟩ := by
  induction ns generalizing no with
  | nil => simp
  | cons n ns ih => simp [push, Block.push, ih]

@[simp] theorem leave_name (root : List Node) (inner : Block) (outer : List Block) :
    leave ⟨root, inner :: outer⟩ inner.opening.name = .ok (push ⟨root, outer⟩ inner.node) :=
  if_pos rfl

theorem turn_of_branches {o : Opening} (h : o.branches) (root : List Node) (outer : List Block)
    (pos : Position) (nodes : List Node) :
    turn ⟨root, ⟨o, pos, nodes, none⟩ :: outer⟩ =
      .ok ⟨root, ⟨o, pos, nodes, some []⟩ :: outer⟩ := by
  cases o with
  | cond test negate => rfl
  | each source => rfl
  | invoke call => cases h

end Builder

open Builder in
theorem Spells.foldlM_take (h : Spells ts ns) (b : Builder) (us : List Tag) :
    (ts ++ us).foldlM take b = us.foldlM take (b.pushAll ns) := by
  induction h generalizing b us with
  | nil => rfl
  | text s _ ih => exact ih (b.push (.text s)) us
  | output what raw pos _ ih => exact ih (b.push (.output what raw pos)) us
  | call c pos _ ih => exact ih (b.push (.invoke c none pos)) us
  | @block body nodes ts ns o pos _ _ ihbody ih =>
    obtain ⟨root, outer⟩ := b
    calc
      _ = (body ++ .leave o.name :: (ts ++ us)).foldlM take ⟨root, ⟨o, pos, [], none⟩ :: outer⟩ := by
        simp [take, enter, bind, Except.bind]
      _ = (.leave o.name :: (ts ++ us)).foldlM take ⟨root, ⟨o, pos, nodes, none⟩ :: outer⟩ := by
        rw [ihbody, pushAll_body, List.nil_append]
      _ = (ts ++ us).foldlM take (push ⟨root, outer⟩ (Block.node ⟨o, pos, nodes, none⟩)) := by
        rw [List.foldlM_cons, take, leave_name root ⟨o, pos, nodes, none⟩ outer]
        rfl
      _ = _ := by rw [ih, pushAll_cons]
  | @branches yes nodes no others ts ns o pos ho _ _ _ ihyes ihno ih =>
    obtain ⟨root, outer⟩ := b
    calc
      _ = (yes ++ .otherwise :: (no ++ .leave o.name :: (ts ++ us))).foldlM take
          ⟨root, ⟨o, pos, [], none⟩ :: outer⟩ := by
        simp [take, enter, bind, Except.bind]
      _ = (.otherwise :: (no ++ .leave o.name :: (ts ++ us))).foldlM take
          ⟨root, ⟨o, pos, nodes, none⟩ :: outer⟩ := by
        rw [ihyes, pushAll_body, List.nil_append]
      _ = (no ++ .leave o.name :: (ts ++ us)).foldlM take
          ⟨root, ⟨o, pos, nodes, some []⟩ :: outer⟩ := by
        rw [List.foldlM_cons, take, turn_of_branches ho]
        rfl
      _ = (.leave o.name :: (ts ++ us)).foldlM take
          ⟨root, ⟨o, pos, nodes, some others⟩ :: outer⟩ := by
        rw [ihno, pushAll_no, List.nil_append]
      _ = (ts ++ us).foldlM take (push ⟨root, outer⟩ (Block.node ⟨o, pos, nodes, some others⟩)) := by
        rw [List.foldlM_cons, take, leave_name root ⟨o, pos, nodes, some others⟩ outer]
        rfl
      _ = _ := by rw [ih, pushAll_cons]

inductive Open : List Tag → Builder → Prop
  | root : Spells ts ns → Open ts { nodes := ns }
  | body (o : Opening) (pos : Position) : Open ts ⟨root, outer⟩ → Spells yes ms →
    Open (ts ++ .enter o pos :: yes) ⟨root, ⟨o, pos, ms, none⟩ :: outer⟩
  | no (o : Opening) (pos : Position) :
    o.branches → Open ts ⟨root, outer⟩ → Spells yes ms → Spells no ks →
    Open (ts ++ .enter o pos :: (yes ++ .otherwise :: no)) ⟨root, ⟨o, pos, ms, some ks⟩ :: outer⟩

namespace Open

theorem push {b : Builder} (h : Open ts b) (hn : Spells us [n]) : Open (ts ++ us) (b.push n) := by
  cases h with
  | root hts => exact .root (hts.append hn)
  | body o pos houter hyes =>
    simpa [Builder.push, Block.push] using Open.body o pos houter (hyes.append hn)
  | no o pos ho houter hyes hno =>
    simpa [Builder.push, Block.push] using Open.no o pos ho houter hyes (hno.append hn)

theorem turn {b b' : Builder} (h : Open ts b) (hb : b.turn = .ok b') :
    Open (ts ++ [.otherwise]) b' := by
  cases h with
  | root _ => cases hb
  | @no _ _ _ _ _ _ _ o pos ho _ _ _ => cases o <;> cases hb
  | @body ts root outer yes nodes o pos houter hyes =>
    have hturned (ho : o.branches) :
        Open ((ts ++ .enter o pos :: yes) ++ [.otherwise])
          ⟨root, ⟨o, pos, nodes, some []⟩ :: outer⟩ := by
      simpa using Open.no o pos ho houter hyes .nil
    cases o with
    | invoke call => cases hb
    | cond test negate => cases hb; exact hturned rfl
    | each source => cases hb; exact hturned rfl

theorem leave {b b' : Builder} {name : String} (h : Open ts b) (hb : b.leave name = .ok b') :
    Open (ts ++ [.leave name]) b' := by
  cases h with
  | root _ => cases hb
  | @body ts root outer yes nodes o pos houter hyes =>
    simp only [Builder.leave] at hb
    split at hb
    · next hname =>
      cases hb
      subst hname
      simpa using houter.push (.block o pos hyes .nil)
    · cases hb
  | @no ts root outer yes nodes no others o pos ho houter hyes hno =>
    simp only [Builder.leave] at hb
    split at hb
    · next hname =>
      cases hb
      subst hname
      simpa using houter.push (.branches o pos ho hyes hno .nil)
    · cases hb

theorem take {b b' : Builder} (h : Open ts b) (hb : b.take t = .ok b') : Open (ts ++ [t]) b' := by
  cases t with
  | text s => cases hb; exact h.push (.text s .nil)
  | output what raw pos => cases hb; exact h.push (.output what raw pos .nil)
  | call c pos => cases hb; exact h.push (.call c pos .nil)
  | enter o pos => cases hb; exact .body o pos h .nil
  | otherwise => exact h.turn hb
  | leave name => exact h.leave hb

theorem foldlM_take {b b' : Builder} (h : Open ts b) (hb : us.foldlM Builder.take b = .ok b') :
    Open (ts ++ us) b' := by
  induction us generalizing ts b with
  | nil => cases hb; simpa using h
  | cons t us ih =>
    rw [List.foldlM_cons, bind_eq_ok_iff] at hb
    obtain ⟨c, hc, hb⟩ := hb
    simpa using ih (h.take hc) hb

end Open

theorem finish_eq_ok_iff {b : Builder} {ns : List Node} :
    b.finish = .ok ns ↔ b = { nodes := ns } := by
  obtain ⟨nodes, blocks⟩ := b
  cases blocks <;> simp [Builder.finish]

theorem foldlM_take_eq_ok_iff {ts : List Tag} {ns : List Node} :
    ts.foldlM Builder.take {} = .ok { nodes := ns } ↔ Spells ts ns := by
  constructor
  · intro h
    have hopen : Open ([] ++ ts) { nodes := ns } := (Open.root .nil).foldlM_take h
    cases hopen with
    | root hts => exact hts
  · intro h
    have hrun := h.foldlM_take {} []
    rw [List.append_nil, Builder.pushAll_root] at hrun
    exact hrun

theorem nodesOf_eq_ok_iff {ls : List Lexeme} {ns : List Node} :
    nodesOf ls = .ok ns ↔ ∃ ts, ls.mapM Lexeme.tag = .ok ts ∧ Spells ts ns := by
  simp only [nodesOf, bind_eq_ok_iff, finish_eq_ok_iff, exists_eq_right,
    Builder.foldlM_step_eq_ok_iff, foldlM_take_eq_ok_iff]

theorem parse_eq_ok_iff {text source : String} {firstLine : Nat} {t : Template} :
    parse text source firstLine = .ok t ↔
      ∃ ls, lexemes firstLine text.toList = .ok ls ∧ nodesOf ls = .ok t.nodes ∧
        t.source = source := by
  obtain ⟨source', ns⟩ := t
  rw [parse]
  cases hls : lexemes firstLine text.toList with
  | error e => simp [bind, Except.bind]
  | ok ls =>
    cases hns : nodesOf ls with
    | error e => simp [hns, bind, Except.bind]
    | ok ns' => simp [hns, bind, Except.bind, and_comm, eq_comm]

theorem exists_of_parse_error {text source : String} {firstLine : Nat} {e : SyntaxError}
    (h : parse text source firstLine = .error e) :
    ∃ pos fault, e = ⟨⟨source, pos⟩, fault⟩ ∧
      (lexemes firstLine text.toList = .error (pos, fault) ∨
        ∃ ls, lexemes firstLine text.toList = .ok ls ∧ nodesOf ls = .error (pos, fault)) := by
  rw [parse] at h
  split at h
  · cases h
  · next pos fault hread =>
    cases h
    refine ⟨pos, fault, rfl, ?_⟩
    cases hls : lexemes firstLine text.toList with
    | error e => exact .inl (by simpa [hls, bind, Except.bind] using hread)
    | ok ls => exact .inr ⟨ls, rfl, by simpa [hls, bind, Except.bind] using hread⟩

def elseTags : List Tag → List Tag
  | [] => []
  | ts => .otherwise :: ts

mutual

def nodeTags : Node → List Tag
  | .text s => [.text s]
  | .output what raw pos => [.output what raw pos]
  | .cond test negate yes no pos =>
    .enter (.cond test negate) pos ::
      (nodesTags yes ++ (elseTags (nodesTags no) ++ [.leave (Opening.cond test negate).name]))
  | .each source body no pos =>
    .enter (.each source) pos ::
      (nodesTags body ++ (elseTags (nodesTags no) ++ [.leave (Opening.each source).name]))
  | .invoke c none pos => [.call c pos]
  | .invoke c (some block) pos =>
    .enter (.invoke c) pos :: (nodesTags block ++ [.leave (Opening.invoke c).name])

def nodesTags : List Node → List Tag
  | [] => []
  | n :: ns => nodeTags n ++ nodesTags ns

end

theorem nodeTags_body (o : Opening) (pos : Position) (nodes : List Node) :
    nodeTags (Block.node ⟨o, pos, nodes, none⟩) =
      .enter o pos :: (nodesTags nodes ++ [.leave o.name]) := by
  cases o <;> simp [Block.node, nodeTags, nodesTags, elseTags]

theorem nodeTags_branches {o : Opening} (h : o.branches) (pos : Position)
    (nodes others : List Node) :
    nodeTags (Block.node ⟨o, pos, nodes, some others⟩) =
      .enter o pos :: (nodesTags nodes ++ (elseTags (nodesTags others) ++ [.leave o.name])) := by
  cases o with
  | cond test negate => simp [Block.node, nodeTags]
  | each source => simp [Block.node, nodeTags]
  | invoke call => cases h

theorem elseTags_of_ne {ts : List Tag} (h : ts ≠ []) : elseTags ts = .otherwise :: ts := by
  cases ts with
  | nil => exact absurd rfl h
  | cons t ts => rfl

theorem nodesTags_ne_nil {ns : List Node} (h : ns ≠ []) : nodesTags ns ≠ [] := by
  cases ns with
  | nil => exact absurd rfl h
  | cons n ns =>
    cases n with
    | invoke c block pos => cases block <;> simp [nodesTags, nodeTags]
    | _ => simp [nodesTags, nodeTags]

def startTag : Node → Tag
  | .text s => .text s
  | .output what raw pos => .output what raw pos
  | .cond test negate _ _ pos => .enter (.cond test negate) pos
  | .each source _ _ pos => .enter (.each source) pos
  | .invoke c none pos => .call c pos
  | .invoke c (some _) pos => .enter (.invoke c) pos

def Tag.starts : Tag → Bool
  | .text _ | .output _ _ _ | .call _ _ | .enter _ _ => true
  | .otherwise | .leave _ => false

theorem filter_elseTags (ts : List Tag) : (elseTags ts).filter Tag.starts = ts.filter Tag.starts := by
  cases ts <;> rfl

mutual

theorem filter_nodeTags : (n : Node) → (nodeTags n).filter Tag.starts = (nodeParts n).map startTag
  | .text _ => rfl
  | .output _ _ _ => rfl
  | .cond _ _ yes no _ => by
    simp [nodeTags, nodeParts, List.filter_cons, Tag.starts, startTag, filter_elseTags,
      filter_nodesTags yes, filter_nodesTags no]
  | .each _ body no _ => by
    simp [nodeTags, nodeParts, List.filter_cons, Tag.starts, startTag, filter_elseTags,
      filter_nodesTags body, filter_nodesTags no]
  | .invoke _ none _ => rfl
  | .invoke _ (some block) _ => by
    simp [nodeTags, nodeParts, List.filter_cons, Tag.starts, startTag, filter_nodesTags block]

theorem filter_nodesTags :
    (ns : List Node) → (nodesTags ns).filter Tag.starts = (nodesParts ns).map startTag
  | [] => rfl
  | n :: ns => by simp [nodesTags, nodesParts, filter_nodeTags n, filter_nodesTags ns]

end

/-- Without each `else` that leads to nothing: its block is closed at once. -/
def dropEmptyElse : List Tag → List Tag
  | [] => []
  | .otherwise :: .leave name :: ts => .leave name :: dropEmptyElse ts
  | t :: ts => t :: dropEmptyElse ts

theorem Spells.dropEmptyElse_append (h : Spells ts ns) (us : List Tag) :
    dropEmptyElse (ts ++ us) = nodesTags ns ++ dropEmptyElse us := by
  induction h generalizing us with
  | nil => rfl
  | text s _ ih => simp [dropEmptyElse, nodesTags, nodeTags, ih]
  | output what raw pos _ ih => simp [dropEmptyElse, nodesTags, nodeTags, ih]
  | call c pos _ ih => simp [dropEmptyElse, nodesTags, nodeTags, ih]
  | block o pos _ _ ihbody ih => simp [dropEmptyElse, nodesTags, nodeTags_body, ihbody, ih]
  | branches o pos ho _ hno _ ihyes ihno ih =>
    -- An `else` is dropped only before a closing tag, and no derived tags start with one.
    cases hno <;>
      simp_all [dropEmptyElse, nodesTags, nodeTags_body, nodeTags_branches, nodeTags, elseTags]

theorem Spells.nodesTags_eq (h : Spells ts ns) : nodesTags ns = dropEmptyElse ts := by
  simpa [dropEmptyElse] using (h.dropEmptyElse_append []).symm

/-- A list of lexemes is a template if and only if all its contents are valid and it is well nested.
The tree then holds its tags in order, each below the block in which it stood; only an `else` that
leads to nothing is lost. -/
theorem nodesOf_nested (ls : List Lexeme) :
    ((∃ ns, nodesOf ls = .ok ns) ↔ ∃ ts, ls.mapM Lexeme.tag = .ok ts ∧ Nested ts) ∧
    ∀ ns, nodesOf ls = .ok ns →
      ∃ ts, ls.mapM Lexeme.tag = .ok ts ∧ nodesTags ns = dropEmptyElse ts := by
  simp only [nodesOf_eq_ok_iff]
  refine ⟨⟨?_, ?_⟩, ?_⟩
  · rintro ⟨ns, ts, hts, h⟩
    exact ⟨ts, hts, h.nested⟩
  · rintro ⟨ts, hts, h⟩
    obtain ⟨ns, hns⟩ := h.exists_spells
    exact ⟨ns, ts, hts, hns⟩
  · rintro ns ⟨ts, hts, h⟩
    exact ⟨ts, hts, h.nodesTags_eq⟩

theorem nodesOf_nested_loop :
    nodesOf [.openCall "card" ⟨1, 1⟩, .openBlock .each "items" ⟨1, 13⟩, .text "a",
      .otherwise ⟨1, 29⟩, .close "each" ⟨1, 37⟩, .close "card" ⟨1, 46⟩] =
        .ok [.invoke ⟨"card", none, []⟩
          (some [.each ⟨"items", .scope, ["items"]⟩ [.text "a"] [] ⟨1, 13⟩]) ⟨1, 1⟩] ∧
    ∃ ts, [Lexeme.openCall "card" ⟨1, 1⟩, .openBlock .each "items" ⟨1, 13⟩, .text "a",
      .otherwise ⟨1, 29⟩, .close "each" ⟨1, 37⟩, .close "card" ⟨1, 46⟩].mapM Lexeme.tag = .ok ts ∧
      nodesTags [.invoke ⟨"card", none, []⟩
        (some [.each ⟨"items", .scope, ["items"]⟩ [.text "a"] [] ⟨1, 13⟩]) ⟨1, 1⟩] =
          dropEmptyElse ts := by
  have h : nodesOf [.openCall "card" ⟨1, 1⟩, .openBlock .each "items" ⟨1, 13⟩, .text "a",
      .otherwise ⟨1, 29⟩, .close "each" ⟨1, 37⟩, .close "card" ⟨1, 46⟩] =
        .ok [.invoke ⟨"card", none, []⟩
          (some [.each ⟨"items", .scope, ["items"]⟩ [.text "a"] [] ⟨1, 13⟩]) ⟨1, 1⟩] := rfl
  exact ⟨h, (nodesOf_nested _).2 _ h⟩

end StaticSite.Template
