import StaticSite.Proofs.FrontMatter
import StaticSite.Proofs.Template.Nodes
import StaticSite.Proofs.Template.Tags

namespace StaticSite

def Position.after (before : List Char) : Position where
  line := before.count '\n' + 1
  column := (before.reverse.takeWhile (· ≠ '\n')).length + 1

@[simp] theorem Position.after_concat (before : List Char) (c : Char) :
    after (before ++ [c]) = (after before).next c := by
  by_cases hc : c = '\n' <;> simp [after, next, hc]

theorem Position.after_of_ends {before : List Char} (h : ['\n'] <:+ before) :
    after before = ⟨before.count '\n' + 1, 1⟩ := by
  obtain ⟨init, rfl⟩ := h
  simp [after]

def TagAt (text : List Char) (i : Nat) : Prop := ['{', '{'] <+: text.drop i

theorem TagAt.lt {text : List Char} {i : Nat} (h : TagAt text i) : i + 2 ≤ text.length := by
  have hlen := h.length_le
  simp only [List.length_drop, List.length_cons, List.length_nil] at hlen
  omega

theorem TagAt.append {text : List Char} {i : Nat} (h : TagAt text i) (cs : List Char) :
    TagAt (text ++ cs) i := by
  have hle : i ≤ text.length := by have := h.lt; omega
  rw [TagAt, List.drop_append_of_le_length hle]
  exact h.trans (List.prefix_append _ _)

theorem TagAt.take_append {text : List Char} {i : Nat} (h : TagAt text i) (cs : List Char) :
    (text ++ cs).take i = text.take i := by
  have := h.lt
  exact List.take_append_of_le_length (by omega)

def TagPlaces (text : List Char) (ps : List Position) : Prop :=
  ∃ is : List Nat, is.Pairwise (· < ·) ∧ (∀ i ∈ is, TagAt text i) ∧
    ps = is.map fun i => Position.after (text.take i)

namespace TagPlaces

variable {text : List Char} {ps qs : List Position}

theorem nil (text : List Char) : TagPlaces text [] := ⟨[], .nil, nofun, rfl⟩

theorem append (h : TagPlaces text ps) (cs : List Char) : TagPlaces (text ++ cs) ps := by
  obtain ⟨is, hinc, hat, rfl⟩ := h
  refine ⟨is, hinc, fun i hi => (hat i hi).append cs, List.map_congr_left fun i hi => ?_⟩
  rw [(hat i hi).take_append]

theorem sublist (h : TagPlaces text ps) (hq : qs.Sublist ps) : TagPlaces text qs := by
  obtain ⟨is, hinc, hat, rfl⟩ := h
  obtain ⟨js, hjs, rfl⟩ := List.sublist_map_iff.mp hq
  exact ⟨js, hinc.sublist hjs, fun i hi => hat i (hjs.subset hi), rfl⟩

theorem of_mem (h : TagPlaces text ps) {p : Position} (hp : p ∈ ps) : TagPlaces text [p] :=
  h.sublist (List.singleton_sublist.mpr hp)

theorem concat (h : TagPlaces text ps) :
    TagPlaces (text ++ ['{', '{']) (ps ++ [Position.after text]) := by
  obtain ⟨is, hinc, hat, rfl⟩ := h
  refine ⟨is ++ [text.length], ?_, ?_, ?_⟩
  · refine List.pairwise_append.mpr ⟨hinc, List.pairwise_singleton _ _, fun i hi j hj => ?_⟩
    have := (hat i hi).lt
    rw [List.mem_singleton] at hj
    omega
  · intro i hi
    obtain hi | hi := List.mem_append.mp hi
    · exact (hat i hi).append _
    · exact ⟨[], by rw [List.mem_singleton.mp hi, List.drop_left, List.append_nil]⟩
  · rw [List.map_append, List.map_singleton, List.take_left]
    congr 1
    exact List.map_congr_left fun i hi => by rw [(hat i hi).take_append]

end TagPlaces

namespace Template

def Lexeme.place? : Lexeme → Option Position
  | .text _ => none
  | .output _ _ pos | .openBlock _ _ pos | .openCall _ pos | .call _ pos | .otherwise pos
  | .close _ pos => some pos

def places (ls : List Lexeme) : List Position := ls.filterMap Lexeme.place?

def outcomePlaces : Except (Position × SyntaxFault) (List Lexeme) → List Position
  | .ok ls => places ls
  | .error e => [e.1]

def Mode.Placed (before : List Char) (ps : List Position) : Mode → Prop
  | .text | .escape | .escapeBrace => TagPlaces before ps
  | .brace start => ∃ b, before = b ++ ['{'] ∧ start = Position.after b ∧ TagPlaces b ps
  | .opened start | .bang start | .bangDash start | .inside _ start _ =>
    TagPlaces before (ps ++ [start])

namespace Lexer

structure Placed (before : List Char) (l : Lexer) : Prop where
  pos_eq : l.pos = Position.after before
  places : l.mode.Placed before (places l.done.reverse)

def Keeps (text : List Char) (pos : Position) : Except (Position × SyntaxFault) Lexer → Prop
  | .ok l => l.pos = pos ∧ l.mode.Placed text (Template.places l.done.reverse)
  | .error e => TagPlaces text [e.1]

@[simp] theorem places_flush (l : Lexer) :
    Template.places l.flush.reverse = Template.places l.done.reverse := by
  unfold flush
  split <;> simp [Template.places, Lexeme.place?]

theorem place?_of_block {content : List Char} {start : Position} {x : Lexeme}
    (h : block start content = .ok x) : x.place? = some start := by
  unfold block at h
  split at h
  · cases h
    rfl
  · simp only at h
    split at h <;> cases h <;> rfl

theorem place?_of_tag {content : List Char} {start : Position} {x : Lexeme}
    (h : tag start content = .ok x) : x.place? = some start := by
  unfold tag at h
  split at h
  · cases h
  · exact place?_of_block h
  · cases h
    rfl
  · cases h
    rfl
  · cases h
    split <;> rfl

theorem emit_placed {text : List Char} {l : Lexer} {start : Position} {x : Lexeme}
    (h : TagPlaces text (Template.places l.done.reverse ++ [start])) (hx : x.place? = some start) :
    (l.emit x).mode.Placed text (Template.places (l.emit x).done.reverse) := by
  have hplaces : Template.places (l.emit x).done.reverse = Template.places l.flush.reverse ++ [start] := by
    simp [emit, Template.places, hx]
  rwa [hplaces, places_flush]

theorem leave_keeps {text : List Char} {l : Lexer} {start : Position}
    (h : TagPlaces text (Template.places l.done.reverse ++ [start])) (what : Enclosed)
    (content : List Char) : Keeps text l.pos (l.leave what start content) := by
  cases what with
  | comment => exact ⟨rfl, h.sublist (List.sublist_append_left _ _)⟩
  | longComment => exact ⟨rfl, h.sublist (List.sublist_append_left _ _)⟩
  | raw => exact ⟨rfl, emit_placed h rfl⟩
  | tag =>
    rw [leave]
    cases htag : tag start (Text.trimChars content) with
    | error f => exact h.of_mem (by simp)
    | ok x => exact ⟨rfl, emit_placed h (place?_of_tag htag)⟩

theorem inside_keeps {text : List Char} {l : Lexer} {start : Position}
    (h : TagPlaces text (Template.places l.done.reverse ++ [start])) (what : Enclosed)
    (rev : List Char) (c : Char) : Keeps text l.pos (l.inside what start rev c) := by
  rw [inside]
  split
  · exact leave_keeps h what _
  · exact ⟨rfl, h⟩

theorem inText_keeps {before : List Char} {l : Lexer} (hpos : l.pos = Position.after before)
    (h : TagPlaces before (Template.places l.done.reverse)) (literal : List Char) (c : Char) :
    Keeps (before ++ [c]) l.pos (.ok (inText { l with literal, mode := .text } c)) := by
  unfold inText
  split
  · exact ⟨rfl, h.append [c]⟩
  · split
    · next hc => exact ⟨rfl, before, by rw [hc], hpos, h⟩
    · exact ⟨rfl, h.append [c]⟩

theorem read_keeps {before : List Char} {l : Lexer} (h : l.Placed before) (c : Char) :
    Keeps (before ++ [c]) l.pos (l.read c) := by
  obtain ⟨pos, literal, done, mode⟩ := l
  obtain ⟨hpos, h⟩ := h
  cases mode with
  | text => exact inText_keeps hpos h literal c
  | escape =>
    simp only [read]
    split
    · exact ⟨rfl, h.append [c]⟩
    · exact inText_keeps hpos h ('\\' :: literal) c
  | escapeBrace =>
    simp only [read]
    split
    · exact ⟨rfl, h.append [c]⟩
    · exact inText_keeps hpos h ('{' :: '\\' :: literal) c
  | brace start =>
    obtain ⟨b, rfl, rfl, h⟩ := h
    simp only [read]
    split
    -- Only the second brace makes a tag, which started at the first one.
    · next hc => exact ⟨rfl, by simpa [hc, Mode.Placed] using h.concat⟩
    · exact inText_keeps hpos (h.append _) ('{' :: literal) c
  | opened start =>
    simp only [read]
    split
    · exact ⟨rfl, h.append [c]⟩
    · split
      · exact ⟨rfl, h.append [c]⟩
      · exact inside_keeps (h.append [c]) _ _ _
  | bang start =>
    simp only [read]
    split
    · exact ⟨rfl, h.append [c]⟩
    · exact inside_keeps (h.append [c]) _ _ _
  | bangDash start =>
    simp only [read]
    split
    · exact ⟨rfl, h.append [c]⟩
    · exact inside_keeps (h.append [c]) _ _ _
  | inside what start rev => exact inside_keeps (h.append [c]) _ _ _

theorem step_placed {before : List Char} {l l' : Lexer} {c : Char} (h : l.Placed before)
    (hl : l.step c = .ok l') : l'.Placed (before ++ [c]) := by
  obtain ⟨m, hm, hl⟩ := exists_of_bind_eq_ok hl
  cases hl
  have hkeeps := read_keeps h c
  rw [hm] at hkeeps
  exact ⟨by simp [hkeeps.1, h.pos_eq], hkeeps.2⟩

theorem tagPlaces_of_step {before : List Char} {l : Lexer} {c : Char} {e : Position × SyntaxFault}
    (h : l.Placed before) (hl : l.step c = .error e) : TagPlaces (before ++ [c]) [e.1] := by
  have hkeeps := read_keeps h c
  cases hm : l.read c with
  | ok m =>
    rw [step, hm] at hl
    cases hl
  | error e' =>
    rw [step, hm] at hl
    cases hl
    rwa [hm] at hkeeps

theorem finish_places {before : List Char} {l : Lexer} (h : l.Placed before) :
    TagPlaces before (outcomePlaces l.finish) := by
  obtain ⟨pos, literal, done, mode⟩ := l
  obtain ⟨-, h⟩ := h
  cases mode with
  | text | escape | escapeBrace =>
    rw [finish, outcomePlaces, places_flush]
    exact h
  | brace start =>
    obtain ⟨b, rfl, -, h⟩ := h
    simpa [finish, outcomePlaces, put] using h.append ['{']
  | opened start | bang start | bangDash start | inside what start rev =>
    exact h.sublist (List.sublist_append_right _ _)

theorem foldlM_places {before cs : List Char} {l : Lexer} (h : l.Placed before) :
    TagPlaces (before ++ cs) (outcomePlaces (cs.foldlM step l >>= finish)) := by
  induction cs generalizing before l with
  | nil => simpa [pure, Except.pure, bind, Except.bind] using finish_places h
  | cons c cs ih =>
    rw [List.foldlM_cons]
    cases hl : l.step c with
    | error e =>
      change TagPlaces _ [e.1]
      simpa using (tagPlaces_of_step h hl).append cs
    | ok l' =>
      change TagPlaces _ (outcomePlaces (cs.foldlM step l' >>= finish))
      simpa using ih (step_placed h hl)

end Lexer

theorem lexemes_places {before cs : List Char} {firstLine : Nat}
    (h : Position.after before = ⟨firstLine, 1⟩) :
    TagPlaces (before ++ cs) (outcomePlaces (lexemes firstLine cs)) :=
  Lexer.foldlM_places ⟨h.symm, .nil before⟩

def Tag.place? : Tag → Option Position
  | .text _ | .otherwise | .leave _ => none
  | .output _ _ pos | .call _ pos | .enter _ pos => some pos

theorem place?_of_tag {l : Lexeme} {t : Tag} (h : l.tag = .ok t) :
    t.place? = none ∨ t.place? = l.place? := by
  cases l with
  | text s => cases h; exact .inl rfl
  | otherwise pos => cases h; exact .inl rfl
  | close name pos => cases h; exact .inl rfl
  | output content raw pos | openBlock keyword content pos | openCall content pos
  | call content pos =>
    obtain ⟨what, -, h⟩ := exists_of_bind_eq_ok h
    cases h
    exact .inr rfl

theorem filterMap_place?_sublist {ls : List Lexeme} {ts : List Tag}
    (h : ls.mapM Lexeme.tag = .ok ts) : (ts.filterMap Tag.place?).Sublist (places ls) := by
  have hall := forall₂_of_mapM_eq_ok h
  clear h
  induction hall with
  | nil => exact .slnil
  | @cons l t ls ts ht _ ih =>
    rw [places, List.filterMap_cons, List.filterMap_cons]
    obtain hnone | hplace := place?_of_tag ht
    · rw [hnone]
      cases l.place? with
      | none => exact ih
      | some p => exact ih.cons p
    · rw [hplace]
      cases l.place? with
      | none => exact ih
      | some p => exact ih.cons_cons p

theorem filterMap_place?_dropEmptyElse (ts : List Tag) :
    (dropEmptyElse ts).filterMap Tag.place? = ts.filterMap Tag.place? := by
  induction ts using dropEmptyElse.induct with
  | case1 => rfl
  | case2 name ts ih => simpa [dropEmptyElse, List.filterMap_cons, Tag.place?] using ih
  | case3 t ts h ih => simp [dropEmptyElse, ih, List.filterMap_cons]

end Template

def Node.place? : Node → Option Position
  | .text _ => none
  | .output _ _ pos | .cond _ _ _ _ pos | .each _ _ _ pos | .invoke _ _ pos => some pos

namespace Template

theorem place?_startTag (n : Node) : (startTag n).place? = n.place? := by
  cases n with
  | invoke c block pos => cases block <;> rfl
  | _ => rfl

theorem filterMap_place?_nodesTags (ns : List Node) :
    (nodesTags ns).filterMap Tag.place? = (nodesParts ns).filterMap Node.place? := by
  have hstarts : (fun t => if t.starts then t.place? else none) = Tag.place? := by
    funext t
    cases t <;> rfl
  have hstart : Tag.place? ∘ startTag = Node.place? := funext place?_startTag
  calc
    _ = ((nodesTags ns).filter Tag.starts).filterMap Tag.place? := by
      rw [List.filterMap_filter, hstarts]
    _ = _ := by rw [filter_nodesTags, List.filterMap_map, hstart]

theorem places_of_nodesOf {ls : List Lexeme} {ns : List Node} (h : nodesOf ls = .ok ns) :
    ((nodesParts ns).filterMap Node.place?).Sublist (places ls) := by
  obtain ⟨ts, hts, hns⟩ := nodesOf_eq_ok_iff.mp h
  rw [← filterMap_place?_nodesTags, hns.nodesTags_eq, filterMap_place?_dropEmptyElse]
  exact filterMap_place?_sublist hts

theorem Open.place_mem {ts : List Tag} {b : Builder} (h : Open ts b) {block : Block}
    (hblock : block ∈ b.blocks.head?) : block.pos ∈ ts.filterMap Tag.place? := by
  cases h with
  | root _ => cases hblock
  | body o pos _ _ =>
    cases hblock
    simp [Tag.place?]
  | no o pos _ _ _ _ =>
    cases hblock
    simp [List.filterMap_cons, Tag.place?]

theorem place_mem_of_step {b : Builder} {l : Lexeme} {ls : List Lexeme} {e : Position × SyntaxFault}
    (hl : l ∈ ls) (h : b.step l = .error e) : e.1 ∈ places ls := by
  have hpos : e.1 = l.pos := by
    rw [Builder.step] at h
    cases hread : b.read l with
    | ok b' => simp [hread, Except.mapError] at h
    | error f =>
      rw [hread] at h
      cases h
      rfl
  refine List.mem_filterMap.mpr ⟨l, hl, ?_⟩
  rw [hpos]
  cases l with
  | text s => cases h
  | output _ _ _ | openBlock _ _ _ | openCall _ _ | call _ _ | otherwise _ | close _ _ => rfl

theorem place_of_nodesOf_error {ls : List Lexeme} {e : Position × SyntaxFault}
    (h : nodesOf ls = .error e) : e.1 ∈ places ls := by
  cases hb : ls.foldlM Builder.step {} with
  | error e' =>
    obtain rfl : e' = e := by simpa [nodesOf, hb, bind, Except.bind] using h
    obtain ⟨l, hl, b, hstep⟩ := exists_of_foldlM_error hb
    exact place_mem_of_step hl hstep
  | ok b =>
    obtain ⟨ts, hts, hrun⟩ := Builder.foldlM_step_eq_ok_iff.mp hb
    have hopen : Open ([] ++ ts) b := (Open.root .nil).foldlM_take hrun
    have hfinish : b.finish = .error e := by simpa [nodesOf, hb, bind, Except.bind] using h
    obtain ⟨nodes, blocks⟩ := b
    cases blocks with
    | nil => cases hfinish
    | cons inner outer =>
      cases hfinish
      exact (filterMap_place?_sublist hts).subset (hopen.place_mem rfl)

end Template

namespace Fragment

open Template

theorem splitFile_eq_ok {content body : String} {file : Path} {m : FragmentMeta} {line : Nat}
    (h : splitFile content file = .ok (m, body, line)) :
    ∃ before, content.toList = before ++ body.toList ∧
      (body.toList = [] ∨ Position.after before = ⟨line, 1⟩) := by
  unfold splitFile at h
  split at h
  · cases h
    exact ⟨[], rfl, .inr rfl⟩
  · next fm hfm =>
    split at h
    · cases h
      obtain ⟨before, hcontent, hline, hend⟩ := FrontMatter.split?_eq_some hfm
      exact ⟨before, hcontent, hend.imp id fun hend => by rw [Position.after_of_ends hend, hline]⟩
    · cases h

theorem lexemes_of_split {content body : String} {file : Path} {m : FragmentMeta} {line : Nat}
    (h : splitFile content file = .ok (m, body, line)) :
    TagPlaces content.toList (outcomePlaces (lexemes line body.toList)) := by
  obtain ⟨before, hcontent, hempty | hstart⟩ := splitFile_eq_ok h
  · rw [hempty]
    exact .nil _
  · rw [hcontent]
    exact lexemes_places hstart

theorem error_of_splitFile {content : String} {file : Path} {e : FragmentError}
    (h : splitFile content file = .error e) : e = .load (.frontMatter file) := by
  unfold splitFile at h
  split at h
  · cases h
  · split at h
    · cases h
    · cases h
      rfl

/-- The tags of a fragment stand in its file where their positions say, in the order of the tree,
and so does the tag at which a file is refused for its syntax. -/
theorem parse_places (content name : String) (file : Path) :
    (∀ f, parse content name file = .ok f → ∃ t, f.body = .template t ∧ t.source = file.text ∧
      TagPlaces content.toList ((nodesParts t.nodes).filterMap Node.place?)) ∧
    ∀ e, parse content name file = .error (.badSyntax e) → e.location.source = file.text ∧
      TagPlaces content.toList [e.location.pos] := by
  cases hs : splitFile content file with
  | error e =>
    refine ⟨fun f h => ?_, fun e' h => ?_⟩ <;> rw [parse, hs] at h <;> cases h
    cases error_of_splitFile hs
  | ok parts =>
    obtain ⟨m, body, line⟩ := parts
    have hplaces := lexemes_of_split hs
    cases ht : Template.parse body file.text line with
    | error e =>
      refine ⟨fun f h => ?_, fun e' h => ?_⟩ <;>
        simp only [parse, hs, ht, bind, Except.bind] at h <;> cases h
      obtain ⟨pos, fault, rfl, hls | ⟨ls, hls, hns⟩⟩ := exists_of_parse_error ht
      · exact ⟨rfl, by rwa [hls] at hplaces⟩
      · rw [hls] at hplaces
        exact ⟨rfl, hplaces.of_mem (place_of_nodesOf_error hns)⟩
    | ok t =>
      rw [parse_of_split hs ht]
      refine ⟨fun f h => ?_, fun e h => ?_⟩ <;> cases h
      obtain ⟨ls, hls, hns, hsource⟩ := parse_eq_ok_iff.mp ht
      rw [hls] at hplaces
      exact ⟨t, rfl, hsource, hplaces.sublist (places_of_nodesOf hns)⟩

theorem parse_places_headed :
    (∃ f t, parse "+++\n+++\né\x7b\x7bchildren\x7d\x7d" "a" ⟨false, ["a"]⟩ = .ok f ∧
      f.body = .template t ∧
      TagPlaces "+++\n+++\né\x7b\x7bchildren\x7d\x7d".toList [⟨3, 2⟩]) ∧
    ∃ e, parse "\n\x7b\x7bx" "a" ⟨false, ["a"]⟩ = .error (.badSyntax e) ∧
      TagPlaces "\n\x7b\x7bx".toList [⟨2, 1⟩] := by
  have hs : splitFile "+++\n+++\né\x7b\x7bchildren\x7d\x7d" ⟨false, ["a"]⟩ =
      .ok ({}, "é\x7b\x7bchildren\x7d\x7d", 3) := rfl
  have ht : Template.parse "é\x7b\x7bchildren\x7d\x7d" (Path.text ⟨false, ["a"]⟩) 3 =
      .ok ⟨_, [.text "é", .output .children false ⟨3, 2⟩]⟩ := rfl
  have hf : parse _ "a" _ = _ := parse_of_split hs ht
  have he : parse "\n\x7b\x7bx" "a" ⟨false, ["a"]⟩ =
      .error (.badSyntax ⟨⟨_, ⟨2, 1⟩⟩, .unclosedTag⟩) := rfl
  obtain ⟨t, hbody, -, hplaces⟩ := (parse_places _ _ _).1 _ hf
  cases hbody
  exact ⟨⟨_, _, hf, rfl, hplaces⟩, _, he, ((parse_places _ _ _).2 _ he).2⟩

end Fragment

end StaticSite
