import StaticSite.Proofs.Template.Moved
import StaticSite.Proofs.Template.Spelling

namespace StaticSite

namespace Template

mutual

def nodeUnplaced : Node → Node
  | .text s => .text s
  | .output what raw _ => .output what raw ⟨1, 1⟩
  | .cond test negate yes no _ => .cond test negate (nodesUnplaced yes) (nodesUnplaced no) ⟨1, 1⟩
  | .each source body no _ => .each source (nodesUnplaced body) (nodesUnplaced no) ⟨1, 1⟩
  | .invoke c none _ => .invoke c none ⟨1, 1⟩
  | .invoke c (some block) _ => .invoke c (some (nodesUnplaced block)) ⟨1, 1⟩

def nodesUnplaced : List Node → List Node
  | [] => []
  | n :: ns => nodeUnplaced n :: nodesUnplaced ns

end

theorem of_nodeUnplaced_eq {n n' : Node} (h : nodeUnplaced n' = nodeUnplaced n) :
    match n with
    | .text s => n' = .text s
    | .output what raw _ => ∃ pos, n' = .output what raw pos
    | .cond test negate yes no _ => ∃ yes' no' pos, n' = .cond test negate yes' no' pos ∧
        nodesUnplaced yes' = nodesUnplaced yes ∧ nodesUnplaced no' = nodesUnplaced no
    | .each source body no _ => ∃ body' no' pos, n' = .each source body' no' pos ∧
        nodesUnplaced body' = nodesUnplaced body ∧ nodesUnplaced no' = nodesUnplaced no
    | .invoke c none _ => ∃ pos, n' = .invoke c none pos
    | .invoke c (some block) _ => ∃ block' pos, n' = .invoke c (some block') pos ∧
        nodesUnplaced block' = nodesUnplaced block := by
  cases n with
  | text text =>
    obtain text' | _ | _ | _ | ⟨_, _ | _, _⟩ := n' <;> cases h
    rfl
  | output what raw pos =>
    obtain _ | ⟨what', raw', pos'⟩ | _ | _ | ⟨_, _ | _, _⟩ := n' <;> cases h
    exact ⟨pos', rfl⟩
  | cond test negate yes no pos =>
    obtain _ | _ | ⟨test', negate', yes', no', pos'⟩ | _ | ⟨_, _ | _, _⟩ := n' <;>
      simp [nodeUnplaced] at h
    obtain ⟨rfl, rfl, hyes, hno⟩ := h
    exact ⟨yes', no', pos', rfl, hyes, hno⟩
  | each source body no pos =>
    obtain _ | _ | _ | ⟨source', body', no', pos'⟩ | ⟨_, _ | _, _⟩ := n' <;>
      simp [nodeUnplaced] at h
    obtain ⟨rfl, hbody, hno⟩ := h
    exact ⟨body', no', pos', rfl, hbody, hno⟩
  | invoke c block pos =>
    cases block with
    | none =>
      obtain _ | _ | _ | _ | ⟨c', _ | _, pos'⟩ := n' <;> cases h
      exact ⟨pos', rfl⟩
    | some block =>
      obtain _ | _ | _ | _ | ⟨c', _ | block', pos'⟩ := n' <;> simp [nodeUnplaced] at h
      obtain ⟨rfl, hblock⟩ := h
      exact ⟨block', pos', rfl, hblock⟩

theorem exists_of_nodesUnplaced_cons {n : Node} {ns ns' : List Node}
    (h : nodesUnplaced ns' = nodesUnplaced (n :: ns)) :
    ∃ m ms, ns' = m :: ms ∧ nodeUnplaced m = nodeUnplaced n ∧ nodesUnplaced ms = nodesUnplaced ns := by
  cases ns' with
  | nil => cases h
  | cons m ms =>
    rw [nodesUnplaced, nodesUnplaced] at h
    obtain ⟨hm, hms⟩ := List.cons.inj h
    exact ⟨m, ms, rfl, hm, hms⟩

theorem nodeUnplaced_block (o : Opening) (pos : Position) (ns : List Node) (no : Option (List Node)) :
    nodeUnplaced (Block.node ⟨o, pos, ns, no⟩) =
      Block.node ⟨o, ⟨1, 1⟩, nodesUnplaced ns, no.map nodesUnplaced⟩ := by
  cases o <;> cases no <;> simp [Block.node, nodeUnplaced, nodesUnplaced]

theorem Tag.of_unplaced_eq {t u : Tag} (h : t.unplaced = u.unplaced) :
    match u with
    | .output what raw _ => ∃ pos, t = .output what raw pos
    | .call c _ => ∃ pos, t = .call c pos
    | .enter o _ => ∃ pos, t = .enter o pos
    | .text _ | .otherwise | .leave _ => t = u := by
  cases u <;> cases t <;> cases h <;> first | rfl | exact ⟨_, rfl⟩

theorem exists_of_map_cons {ts us : List Tag} {u : Tag}
    (h : ts.map Tag.unplaced = (u :: us).map Tag.unplaced) :
    ∃ t vs, ts = t :: vs ∧ t.unplaced = u.unplaced ∧ vs.map Tag.unplaced = us.map Tag.unplaced :=
  List.map_eq_cons_iff.mp h

theorem exists_of_map_append {ts us us' : List Tag} {u : Tag}
    (h : ts.map Tag.unplaced = (us ++ u :: us').map Tag.unplaced) :
    ∃ vs t vs', ts = vs ++ t :: vs' ∧ vs.map Tag.unplaced = us.map Tag.unplaced ∧
      t.unplaced = u.unplaced ∧ vs'.map Tag.unplaced = us'.map Tag.unplaced := by
  rw [List.map_append] at h
  obtain ⟨vs, rest, rfl, hvs, hrest⟩ := List.map_eq_append_iff.mp h
  obtain ⟨t, vs', rfl, ht, hvs'⟩ := exists_of_map_cons hrest
  exact ⟨vs, t, vs', rfl, hvs, ht, hvs'⟩

theorem Spells.unplaced {ts ts' : List Tag} {ns : List Node} (h : Spells ts ns)
    (hts : ts'.map Tag.unplaced = ts.map Tag.unplaced) :
    ∃ ns', Spells ts' ns' ∧ nodesUnplaced ns' = nodesUnplaced ns := by
  induction h generalizing ts' with
  | nil =>
    obtain rfl : ts' = [] := by simpa using hts
    exact ⟨[], .nil, rfl⟩
  | text s _ ih =>
    obtain ⟨t, us, rfl, ht, hus⟩ := exists_of_map_cons hts
    obtain rfl : t = .text s := Tag.of_unplaced_eq ht
    obtain ⟨ns', hns, heq⟩ := ih hus
    exact ⟨_, .text s hns, by simp [nodesUnplaced, nodeUnplaced, heq]⟩
  | output what raw pos _ ih =>
    obtain ⟨t, us, rfl, ht, hus⟩ := exists_of_map_cons hts
    obtain ⟨pos', rfl⟩ := Tag.of_unplaced_eq ht
    obtain ⟨ns', hns, heq⟩ := ih hus
    exact ⟨_, .output what raw pos' hns, by simp [nodesUnplaced, nodeUnplaced, heq]⟩
  | call c pos _ ih =>
    obtain ⟨t, us, rfl, ht, hus⟩ := exists_of_map_cons hts
    obtain ⟨pos', rfl⟩ := Tag.of_unplaced_eq ht
    obtain ⟨ns', hns, heq⟩ := ih hus
    exact ⟨_, .call c pos' hns, by simp [nodesUnplaced, nodeUnplaced, heq]⟩
  | block o pos _ _ ihbody ih =>
    obtain ⟨t, rest, rfl, ht, hrest⟩ := exists_of_map_cons hts
    obtain ⟨pos', rfl⟩ := Tag.of_unplaced_eq ht
    obtain ⟨body, u, us, rfl, hbody, hu, hus⟩ := exists_of_map_append hrest
    obtain rfl : u = .leave o.name := Tag.of_unplaced_eq hu
    obtain ⟨ms', hms, hmseq⟩ := ihbody hbody
    obtain ⟨ns', hns, heq⟩ := ih hus
    exact ⟨_, .block o pos' hms hns, by simp [nodesUnplaced, nodeUnplaced_block, hmseq, heq]⟩
  | branches o pos ho _ _ _ ihyes ihno ih =>
    obtain ⟨t, rest, rfl, ht, hrest⟩ := exists_of_map_cons hts
    obtain ⟨pos', rfl⟩ := Tag.of_unplaced_eq ht
    obtain ⟨yes, u, tail, rfl, hyes, hu, htail⟩ := exists_of_map_append hrest
    obtain rfl : u = .otherwise := Tag.of_unplaced_eq hu
    obtain ⟨no, v, us, rfl, hno, hv, hus⟩ := exists_of_map_append htail
    obtain rfl : v = .leave o.name := Tag.of_unplaced_eq hv
    obtain ⟨ms', hms, hmseq⟩ := ihyes hyes
    obtain ⟨ks', hks, hkseq⟩ := ihno hno
    obtain ⟨ns', hns, heq⟩ := ih hus
    exact ⟨_, .branches o pos' ho hms hks hns, by
      simp [nodesUnplaced, nodeUnplaced_block, hmseq, hkseq, heq]⟩

def Lexeme.unplaced : Lexeme → Lexeme
  | text s => text s
  | output content raw _ => output content raw ⟨1, 1⟩
  | openBlock keyword content _ => openBlock keyword content ⟨1, 1⟩
  | openCall content _ => openCall content ⟨1, 1⟩
  | call content _ => call content ⟨1, 1⟩
  | otherwise _ => otherwise ⟨1, 1⟩
  | close name _ => close name ⟨1, 1⟩

theorem Lexeme.moved_const : Lexeme.moved (fun _ => ⟨1, 1⟩) = Lexeme.unplaced :=
  funext fun x => by cases x <;> rfl

theorem Lexeme.tag_unplaced (x : Lexeme) : x.unplaced.tag = x.tag.map Tag.unplaced := by
  cases x with
  | text s | otherwise pos | close name pos => rfl
  | output content raw pos => simp only [unplaced, tag]; cases Template.output content <;> rfl
  | openBlock keyword content pos =>
    simp only [unplaced, tag]; cases blockReference content <;> rfl
  | openCall content pos | call content pos =>
    simp only [unplaced, tag]; cases Template.call content <;> rfl

theorem mapM_tag_unplaced (ls : List Lexeme) :
    (ls.map Lexeme.unplaced).mapM Lexeme.tag =
      (ls.mapM Lexeme.tag).map (List.map Tag.unplaced) := by
  induction ls with
  | nil => rfl
  | cons x ls ih =>
    rw [List.map_cons, List.mapM_cons, List.mapM_cons, Lexeme.tag_unplaced, ih]
    cases x.tag <;> cases ls.mapM Lexeme.tag <;> rfl

theorem exists_nodesOf {ls ls' : List Lexeme} {ns : List Node} (h : nodesOf ls = .ok ns)
    (hls : ls'.map Lexeme.unplaced = ls.map Lexeme.unplaced) :
    ∃ ns', nodesOf ls' = .ok ns' ∧ nodesUnplaced ns' = nodesUnplaced ns := by
  obtain ⟨ts, hts, hspells⟩ := nodesOf_eq_ok_iff.mp h
  have hmap : (ls'.mapM Lexeme.tag).map (List.map Tag.unplaced) = .ok (ts.map Tag.unplaced) := by
    rw [← mapM_tag_unplaced, hls, mapM_tag_unplaced, hts]
    rfl
  cases hts' : ls'.mapM Lexeme.tag with
  | error f =>
    rw [hts'] at hmap
    cases hmap
  | ok ts' =>
    rw [hts'] at hmap
    obtain ⟨ns', hns', heq⟩ := hspells.unplaced (Except.ok.inj hmap)
    exact ⟨ns', nodesOf_eq_ok_iff.mpr ⟨ts', hts', hns'⟩, heq⟩

theorem nodesOf_unplaced {ls ls' : List Lexeme}
    (hls : ls'.map Lexeme.unplaced = ls.map Lexeme.unplaced) :
    (nodesOf ls').toOption.map nodesUnplaced = (nodesOf ls).toOption.map nodesUnplaced := by
  cases h : nodesOf ls with
  | ok ns =>
    obtain ⟨ns', h', heq⟩ := exists_nodesOf h hls
    rw [h']
    exact congrArg some heq
  | error f =>
    cases h' : nodesOf ls' with
    | ok ns' =>
      obtain ⟨ns, hns, -⟩ := exists_nodesOf h' hls.symm
      rw [h] at hns
      cases hns
    | error f' => rfl

def Mode.unplaced : Mode → Mode
  | brace _ => brace ⟨1, 1⟩
  | opened _ => opened ⟨1, 1⟩
  | bang _ => bang ⟨1, 1⟩
  | bangDash _ => bangDash ⟨1, 1⟩
  | inside what _ rev => inside what ⟨1, 1⟩ rev
  | text => text
  | escape => escape
  | escapeBrace => escapeBrace

namespace Lexer

def unplaced (l : Lexer) : Lexer where
  pos := ⟨1, 1⟩
  literal := l.literal
  done := l.done.map Lexeme.unplaced
  mode := l.mode.unplaced

theorem moved_const : moved (fun _ => ⟨1, 1⟩) = unplaced := by
  funext l
  have hmode : l.mode.moved (fun _ => ⟨1, 1⟩) = l.mode.unplaced := by cases l.mode <;> rfl
  rw [moved, unplaced, Lexeme.moved_const, hmode]

theorem read_unplaced (l : Lexer) (c : Char) :
    (l.unplaced.read c).toOption = (l.read c).toOption.map unplaced :=
  moved_const ▸ read_moved _ l c

theorem step_unplaced (l : Lexer) (c : Char) :
    (l.step c).toOption.map unplaced = (l.unplaced.read c).toOption := by
  rw [read_unplaced, step]
  cases l.read c <;> rfl

theorem foldlM_unplaced (cs : List Char) {l m : Lexer} (h : l.unplaced = m.unplaced) :
    (cs.foldlM step l).toOption.map unplaced = (cs.foldlM step m).toOption.map unplaced := by
  induction cs generalizing l m with
  | nil => exact congrArg some h
  | cons c cs ih =>
    rw [List.foldlM_cons, List.foldlM_cons]
    refine toOption_bind_congr ?_ fun a b hab => ih hab
    rw [step_unplaced, step_unplaced, h]

theorem finish_unplaced (l : Lexer) :
    l.unplaced.finish.toOption = l.finish.toOption.map (List.map Lexeme.unplaced) :=
  moved_const ▸ Lexeme.moved_const ▸ finish_moved _ l

end Lexer

theorem parse_unplaced (text source : String) (line : Nat) :
    (parse text source line).toOption.map (fun t => nodesUnplaced t.nodes) =
      (lexemes line text.toList >>= nodesOf).toOption.map nodesUnplaced := by
  rw [parse]
  cases lexemes line text.toList >>= nodesOf <;> rfl

end Template

end StaticSite
