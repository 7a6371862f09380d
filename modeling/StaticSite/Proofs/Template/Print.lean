import StaticSite.Proofs.Template.Unplaced

namespace StaticSite

namespace Template

theorem reads_tags {ts : List Tag} (hwritten : ∀ t ∈ ts, t.Written)
    (hchain : (ts.map Tag.text?).IsChain Follows) {l : Lexer} (hl : l.mode = .text)
    (hstart : l.literal = [] ∨ ∀ t ∈ ts.head?, t.text? = none) :
    ∃ l' ls, (ts.flatMap Tag.chars).foldlM Lexer.step l = .ok l' ∧
      l'.finish = .ok (l.flush.reverse ++ ls) ∧ List.Forall₂ Lexeme.Means ls ts := by
  induction ts generalizing l with
  | nil =>
    refine ⟨l, [], rfl, ?_, .nil⟩
    rw [Lexer.finish, hl, List.append_nil]
  | cons t ts ih =>
    obtain ⟨ht, hts⟩ := List.forall_mem_cons.mp hwritten
    rw [List.map_cons, List.isChain_cons] at hchain
    obtain ⟨hnext, hchain⟩ := hchain
    rw [List.flatMap_cons, List.foldlM_append]
    cases htext : t.text? with
    | none =>
      obtain ⟨m, x, hm, hx⟩ := Lexer.emits_tag hl ht htext
      obtain ⟨l', ls, hrun, hfinish, hls⟩ := ih hts hchain hm.mode_eq (.inl hm.literal_eq)
      refine ⟨l', x :: ls, by rw [hm.run]; exact hrun, ?_, .cons hx hls⟩
      rw [hfinish, Lexer.flush_of_nil hm.literal_eq, hm.done_eq]
      simp
    | some s =>
      obtain rfl : t = .text s := by cases t <;> cases htext; rfl
      have hnil : l.literal = [] := hstart.elim id fun h => by simp [Tag.text?] at h
      obtain ⟨m, hrun, hdone, hmtext, hlone⟩ := Lexer.exists_text hl hnil s.toList
      have hs : s.toList ≠ [] := by simpa [Tag.Written] using ht
      have hflush : l.flush = m.done := (Lexer.flush_of_nil hnil).trans hdone.symm
      have hmeans : Lexeme.Means (.text s) (.text s) := ⟨.text s, rfl, rfl⟩
      rw [Tag.chars, hrun]
      cases ts with
      | nil =>
        refine ⟨m, [.text s], rfl, ?_, .cons hmeans .nil⟩
        rw [Lexer.finish_of_text hmtext hs, hflush, String.ofList_toList]
      | cons u us =>
        -- The text is no lexeme yet: the tag after it makes it one, so it is left to `ih` in `m`.
        obtain ⟨hu, hsafe⟩ := hnext u.text? rfl s rfl
        obtain ⟨hmode, hliteral⟩ := Lexer.mode_of_safeEnd hmtext hlone hsafe
        obtain ⟨l', ls, hrest, hfinish, hls⟩ := ih hts hchain hmode (.inr (by simpa using hu))
        have hne : m.literal ≠ [] := fun h => hs (by simpa [h] using hliteral.symm)
        refine ⟨l', .text s :: ls, hrest, ?_, .cons hmeans hls⟩
        rw [hfinish, Lexer.flush_of_ne hne, hliteral, String.ofList_toList, hflush]
        simp

theorem exists_of_means {ls : List Lexeme} {ts : List Tag} (h : List.Forall₂ Lexeme.Means ls ts) :
    ∃ ts', ls.mapM Lexeme.tag = .ok ts' ∧ ts'.map Tag.unplaced = ts.map Tag.unplaced := by
  induction h with
  | nil => exact ⟨[], rfl, rfl⟩
  | cons hx _ ih =>
    obtain ⟨t', ht', ht⟩ := hx
    obtain ⟨ts', hts', hts⟩ := ih
    refine ⟨t' :: ts', ?_, by rw [List.map_cons, List.map_cons, ht, hts]⟩
    rw [List.mapM_cons, ht', hts']
    rfl

theorem lexemes_tags {ts : List Tag} (hwritten : ∀ t ∈ ts, t.Written)
    (hchain : (ts.map Tag.text?).IsChain Follows) (firstLine : Nat) :
    ∃ ls ts', lexemes firstLine (ts.flatMap Tag.chars) = .ok ls ∧ ls.mapM Lexeme.tag = .ok ts' ∧
      ts'.map Tag.unplaced = ts.map Tag.unplaced := by
  obtain ⟨l', ls, hrun, hfinish, hls⟩ :=
    reads_tags (l := { pos := ⟨firstLine, 1⟩ }) hwritten hchain rfl (.inl rfl)
  obtain ⟨ts', hts', heq⟩ := exists_of_means hls
  refine ⟨ls, ts', ?_, hts', heq⟩
  rw [lexemes, hrun]
  exact hfinish

theorem Spells.nodesTags {ts : List Tag} {ns : List Node} (h : Spells ts ns) :
    Spells (nodesTags ns) ns := by
  induction h with
  | nil => exact .nil
  | text s _ ih => exact .text s ih
  | output what raw pos _ ih => exact .output what raw pos ih
  | call c pos _ ih => exact .call c pos ih
  | block o pos _ _ ihbody ih =>
    simpa [Template.nodesTags, nodeTags_body] using Spells.block o pos ihbody ih
  | @branches _ _ _ ks _ _ o pos ho _ _ _ ihyes ihno ih =>
    rw [Template.nodesTags, nodeTags_branches ho]
    -- No `else` is written before nothing: what is left is a block of one branch.
    by_cases hks : ks = []
    · subst hks
      have hblock : Spells _ (Block.node ⟨o, pos, _, some []⟩ :: _) := Spells.block o pos ihyes ih
      simpa [Template.nodesTags, elseTags] using hblock
    · simpa [elseTags_of_ne (nodesTags_ne_nil hks)] using Spells.branches o pos ho ihyes ihno ih

end Template

def Node.Exact : Node → Prop
  | .invoke c _ _ => c.Exact
  | .text _ | .output _ _ _ | .cond _ _ _ _ _ | .each _ _ _ _ => True

namespace Template

def Tag.Exact : Tag → Prop
  | .call c _ | .enter (.invoke c) _ => c.Exact
  | .text _ | .output _ _ _ | .enter (.cond _ _) _ | .enter (.each _) _
  | .otherwise | .leave _ => True

theorem exact_of_mem_nodesTags {ns : List Node} (h : ∀ n ∈ nodesParts ns, n.Exact) {t : Tag}
    (ht : t ∈ nodesTags ns) : t.Exact := by
  have hstart (n : Node) (hn : n.Exact) : (startTag n).Exact := by
    cases n with
    | invoke c block pos => cases block <;> exact hn
    | _ => exact hn
  cases hstarts : t.starts with
  | true =>
    have hmem : t ∈ (nodesParts ns).map startTag := by
      rw [← filter_nodesTags]
      exact List.mem_filter.mpr ⟨ht, hstarts⟩
    obtain ⟨n, hn, rfl⟩ := List.mem_map.mp hmem
    exact hstart n (h n hn)
  | false =>
    cases t with
    | text s | output what raw pos | otherwise | leave name => trivial
    | call c pos | enter o pos => cases hstarts

theorem written_of_tag {x : Lexeme} {t : Tag} (hx : x.Lexed) (h : x.tag = .ok t) (hexact : t.Exact)
    (hleave : ∀ name, t ≠ .leave name) : t.Written := by
  cases x with
  | text s => cases h; exact hx
  | output content raw pos =>
    obtain ⟨what, hwhat, h⟩ := exists_of_bind_eq_ok h
    cases h
    obtain ⟨rfl, -⟩ := output_eq_ok hwhat
    refine ⟨hwhat, ?_⟩
    rintro rfl
    exact hx
  | openBlock keyword content pos =>
    obtain ⟨r, hr, h⟩ := exists_of_bind_eq_ok h
    cases h
    cases keyword <;> exact reference_of_block hr
  | openCall content pos =>
    obtain ⟨c, hc, h⟩ := exists_of_bind_eq_ok h
    cases h
    exact Call.written_of_call hx hc hexact
  | call content pos =>
    obtain ⟨c, hc, h⟩ := exists_of_bind_eq_ok h
    cases h
    exact Call.written_of_call hx hc hexact
  | otherwise pos => cases h; trivial
  | close name pos =>
    cases h
    exact absurd rfl (hleave name)

theorem text?_of_tag (x : Lexeme) (t : Tag) (h : x.tag = .ok t) : t.text? = x.text? := by
  cases x with
  | text s | otherwise pos | close name pos => cases h; rfl
  | output content raw pos | openBlock keyword content pos | openCall content pos
  | call content pos =>
    obtain ⟨what, -, h⟩ := exists_of_bind_eq_ok h
    cases h
    rfl

theorem Opening.Written.plain_name {o : Opening} (h : o.Written) : Plain o.name.toList := by
  cases o with
  | cond test negate =>
    cases negate with
    | false => exact plain_keyword .whenTrue
    | true => exact plain_keyword .whenFalse
  | each source => exact plain_keyword .each
  | invoke c => exact plain_of_isFragmentName h.name

theorem Spells.exists_enter {ts : List Tag} {ns : List Node} (h : Spells ts ns) :
    ∀ name, .leave name ∈ ts → ∃ o pos, .enter o pos ∈ ts ∧ o.name = name := by
  induction h with
  | nil => exact nofun
  | text s _ ih => simpa using ih
  | output what raw pos _ ih => simpa using ih
  | call c pos _ ih => simpa using ih
  | block o pos _ _ ihbody ih =>
    intro name h
    simp only [List.mem_cons, List.mem_append, reduceCtorEq, Tag.leave.injEq, false_or] at h
    obtain h | rfl | h := h
    · obtain ⟨o', pos', ho, rfl⟩ := ihbody name h
      exact ⟨o', pos', by simp [ho], rfl⟩
    · exact ⟨o, pos, by simp, rfl⟩
    · obtain ⟨o', pos', ho, rfl⟩ := ih name h
      exact ⟨o', pos', by simp [ho], rfl⟩
  | branches o pos _ _ _ _ ihyes ihno ih =>
    intro name h
    simp only [List.mem_cons, List.mem_append, reduceCtorEq, Tag.leave.injEq, false_or] at h
    obtain h | h | rfl | h := h
    · obtain ⟨o', pos', ho, rfl⟩ := ihyes name h
      exact ⟨o', pos', by simp [ho], rfl⟩
    · obtain ⟨o', pos', ho, rfl⟩ := ihno name h
      exact ⟨o', pos', by simp [ho], rfl⟩
    · exact ⟨o, pos, by simp, rfl⟩
    · obtain ⟨o', pos', ho, rfl⟩ := ih name h
      exact ⟨o', pos', by simp [ho], rfl⟩

theorem dropEmptyElse_sublist (ts : List Tag) : (dropEmptyElse ts).Sublist ts := by
  induction ts using dropEmptyElse.induct with
  | case1 => exact .slnil
  | case2 name ts ih => exact (ih.cons_cons _).cons _
  | case3 t ts h ih =>
    rw [dropEmptyElse]
    · exact ih.cons_cons _
    · exact h

theorem head?_dropEmptyElse (ts : List Tag) :
    ((dropEmptyElse ts).map Tag.text?).head? = (ts.map Tag.text?).head? := by
  cases ts using dropEmptyElse.induct with
  | case1 => rfl
  | case2 name ts => rfl
  | case3 t ts h => simp [dropEmptyElse]

theorem isChain_dropEmptyElse {ts : List Tag} (h : (ts.map Tag.text?).IsChain Follows) :
    ((dropEmptyElse ts).map Tag.text?).IsChain Follows := by
  induction ts using dropEmptyElse.induct with
  | case1 => exact h
  | case2 name ts ih =>
    have hrest := (List.isChain_cons.mp (List.isChain_cons.mp h).2).2
    exact List.isChain_cons.mpr ⟨nofun, ih hrest⟩
  | case3 t ts ht ih =>
    obtain ⟨hnext, hrest⟩ := List.isChain_cons.mp h
    rw [dropEmptyElse]
    · exact List.isChain_cons.mpr ⟨by rwa [head?_dropEmptyElse], ih hrest⟩
    · exact ht

theorem written_nodesTags {firstLine : Nat} {cs : List Char} {ls : List Lexeme} {ts : List Tag}
    {ns : List Node} (hls : lexemes firstLine cs = .ok ls) (hts : ls.mapM Lexeme.tag = .ok ts)
    (h : Spells ts ns) (hexact : ∀ n ∈ nodesParts ns, n.Exact) :
    (∀ t ∈ nodesTags ns, t.Written) ∧ ((nodesTags ns).map Tag.text?).IsChain Follows := by
  obtain ⟨hlexed, hchain⟩ := lexemes_cut hls
  have hopen : ∀ t ∈ nodesTags ns, (∀ name, t ≠ .leave name) → t.Written := by
    intro t ht hleave
    have hmem : t ∈ ts := (dropEmptyElse_sublist ts).subset (h.nodesTags_eq ▸ ht)
    obtain ⟨x, hx, htag⟩ := exists_of_mem_mapM hts hmem
    exact written_of_tag (hlexed x hx) htag (exact_of_mem_nodesTags hexact ht) hleave
  have hclose (name : String) (hname : .leave name ∈ nodesTags ns) : Plain name.toList := by
    obtain ⟨o, pos, ho, rfl⟩ := h.nodesTags.exists_enter name hname
    exact Opening.Written.plain_name (hopen (.enter o pos) ho nofun)
  -- The name of a close says nothing of itself: it is plain because what it closes is.
  refine ⟨fun t ht => ?_, ?_⟩
  · cases t with
    | leave name => exact hclose name ht
    | text s | output what raw pos | call c pos | enter o pos | otherwise => exact hopen _ ht nofun
  · have htext : ts.map Tag.text? = ls.map Lexeme.text? := map_eq_of_mapM_eq_ok text?_of_tag hts
    rw [h.nodesTags_eq]
    exact isChain_dropEmptyElse (htext ▸ hchain)

/-- A tree as a template: runs of braces in text stand after backslashes, quoted text has a backslash
before each character, and an `else` stands where it leads to something. -/
def print (ns : List Node) : String := String.ofList ((nodesTags ns).flatMap Tag.chars)

/-- A template whose calls have no floats is read again from what it is printed as. -/
theorem parse_print {text source : String} {firstLine : Nat} {t : Template}
    (h : parse text source firstLine = .ok t) (hexact : ∀ n ∈ nodesParts t.nodes, n.Exact)
    (source' : String) (firstLine' : Nat) :
    ∃ t', parse (print t.nodes) source' firstLine' = .ok t' ∧
      nodesUnplaced t'.nodes = nodesUnplaced t.nodes := by
  obtain ⟨ls, hls, hns, -⟩ := parse_eq_ok_iff.mp h
  obtain ⟨ts, hts, hspells⟩ := nodesOf_eq_ok_iff.mp hns
  obtain ⟨hwritten, hchain⟩ := written_nodesTags hls hts hspells hexact
  obtain ⟨ls', ts', hls', hts', heq⟩ := lexemes_tags hwritten hchain firstLine'
  obtain ⟨ns', hns', hunplaced⟩ := hspells.nodesTags.unplaced heq
  have hnodes : nodesOf ls' = .ok ns' := nodesOf_eq_ok_iff.mpr ⟨ts', hts', hns'⟩
  refine ⟨⟨source', ns'⟩, parse_eq_ok_iff.mpr ⟨ls', ?_, hnodes, rfl⟩, hunplaced⟩
  rw [print, String.toList_ofList, hls']

def crowded : String :=
  "\x7b\\\x7b\x7b\x7b\x7b#each items\x7d\x7d\x7b\x7belse\x7d\x7d\x7b\x7b/each\x7d\x7d" ++
  "\x7b\x7b#> card k='\"\x7d'\x7d\x7d\x7b\x7b\x7bit\x7d\x7d\x7d\x7b\x7b/card\x7d\x7d"

theorem parse_print_crowded :
    ∃ t t', parse crowded "a" 1 = .ok t ∧
      print t.nodes =
        "\x7b\\\x7b\x7b\x7b\x7b#each items\x7d\x7d\x7b\x7b/each\x7d\x7d" ++
        "\x7b\x7b#> card k=\"\\\"\\\x7d\"\x7d\x7d\x7b\x7b\x7bit\x7d\x7d\x7d\x7b\x7b/card\x7d\x7d" ∧
      parse (print t.nodes) "a" 1 = .ok t' ∧ nodesUnplaced t'.nodes = nodesUnplaced t.nodes := by
  have h : parse crowded "a" 1 =
      .ok ⟨"a", [.text "\x7b\x7b\x7b", .each ⟨"items", .scope, ["items"]⟩ [] [] ⟨1, 5⟩,
        .invoke ⟨"card", none, [("k", .literal (.string "\"\x7d"))]⟩
          (some [.output (.reference ⟨"it", .scope, ["it"]⟩) true ⟨1, 55⟩]) ⟨1, 37⟩]⟩ := rfl
  have hexact : Call.Exact ⟨"card", none, [("k", .literal (.string "\"\x7d"))]⟩ := by
    simp [Call.Exact, Argument.Exact]
  obtain ⟨t', ht', heq⟩ := parse_print h (by simpa [nodesParts, nodeParts, Node.Exact]) "a" 1
  exact ⟨_, t', h, rfl, ht', heq⟩

end Template

end StaticSite
