import StaticSite.Proofs.Template.Braces
import StaticSite.Proofs.Template.Content
import StaticSite.Proofs.Template.Tags

namespace StaticSite

namespace Template

theorem Plain.trimChars {cs : List Char} (h : Plain cs) : Text.trimChars cs = cs :=
  Text.trimChars_eq (fun c hc => isSpace_of_isPlain (h.isPlain c (List.mem_of_mem_head? hc)))
    h.word.isSealed.getLast

def braced (content : List Char) : List Char := '{' :: '{' :: (content ++ ['}', '}'])

namespace Lexer

structure Emits (l : Lexer) (cs : List Char) (x : Lexeme) (l' : Lexer) : Prop where
  run : cs.foldlM step l = .ok l'
  mode_eq : l'.mode = .text
  literal_eq : l'.literal = []
  done_eq : l'.done = x :: l.flush

theorem foldlM_inside {what : Enclosed} {start : Position} {rev : List Char} {l : Lexer}
    (hl : l.mode = .inside what start rev) (cs : List Char)
    (h : ¬ what.mark <:+: rev.reverse ++ cs) :
    ∃ pos, cs.foldlM step l = .ok { l with pos, mode := .inside what start (cs.reverse ++ rev) } := by
  induction cs generalizing l rev with
  | nil => exact ⟨l.pos, congrArg Except.ok (by rw [List.reverse_nil, List.nil_append, ← hl])⟩
  | cons c cs ih =>
    have hmark : ¬ what.mark.reverse.isPrefixOf (c :: rev) := by
      rw [List.isPrefixOf_iff_prefix, ← List.reverse_suffix, List.reverse_reverse,
        List.reverse_cons]
      intro hsuffix
      rw [List.append_cons] at h
      exact h (hsuffix.isInfix.trans (List.prefix_append _ cs).isInfix)
    have hread : l.read c = .ok { l with mode := .inside what start (c :: rev) } := by
      rw [read, hl]
      simp [inside, hmark]
    rw [foldlM_of_step (step_eq_ok hread)]
    obtain ⟨pos, hrun⟩ :=
      ih (l := { l with pos := l.pos.next c, mode := .inside what start (c :: rev) }) rfl
        (by simpa using h)
    exact ⟨pos, by simpa using hrun⟩

theorem inside_mark {what : Enclosed} {start : Position} {content : List Char} (l : Lexer) :
    l.inside what start (content ++ what.mark.dropLast).reverse '}' =
      l.leave what start content := by
  have hrev : '}' :: (content ++ what.mark.dropLast).reverse =
      what.mark.reverse ++ content.reverse := by
    cases what <;> simp [Enclosed.mark]
  have hmark : what.mark.reverse.isPrefixOf (what.mark.reverse ++ content.reverse) :=
    List.isPrefixOf_iff_prefix.mpr (List.prefix_append _ _)
  have hdrop : (what.mark.reverse ++ content.reverse).drop what.mark.length = content.reverse :=
    List.drop_left' List.length_reverse
  simp only [inside, hrev, if_pos hmark, hdrop, List.reverse_reverse]

theorem foldlM_enclosed {what : Enclosed} {start : Position} {rev cs content : List Char}
    {l l' : Lexer} (hl : l.mode = .inside what start rev)
    (hcs : rev.reverse ++ cs = content ++ what.mark.dropLast)
    (h : ¬ what.mark <:+: rev.reverse ++ cs)
    (hleave : ∀ pos mode, leave { l with pos, mode } what start content = .ok { l' with pos }) :
    ∃ pos, (cs ++ ['}']).foldlM step l = .ok { l' with pos } := by
  obtain ⟨pos, hrun⟩ := foldlM_inside hl cs h
  have hread : read { l with pos, mode := .inside what start (cs.reverse ++ rev) } '}' =
      .ok { l' with pos } := by
    have hrev : cs.reverse ++ rev = (content ++ what.mark.dropLast).reverse := by simp [← hcs]
    rw [hrev]
    exact (inside_mark _).trans (hleave pos _)
  rw [List.foldlM_append, hrun]
  exact ⟨_, foldlM_of_step (step_eq_ok hread) []⟩

theorem emits_enclosed {what : Enclosed} {start : Position} {content : List Char} {x : Lexeme}
    {l : Lexer} (hl : l.mode = .inside what start [])
    (h : ¬ what.mark <:+: content ++ what.mark.dropLast)
    (hx : ∀ m : Lexer, m.leave what start content = .ok (m.emit x)) :
    ∃ l', Emits l (content ++ what.mark) x l' := by
  -- The mark counts as content up to its last brace.
  obtain ⟨pos, hrun⟩ : ∃ pos, ((content ++ what.mark.dropLast) ++ ['}']).foldlM step l =
      .ok { l.emit x with pos } := foldlM_enclosed hl rfl h fun _ _ => hx _
  have hmark : content ++ what.mark = (content ++ what.mark.dropLast) ++ ['}'] := by
    cases what <;> simp [Enclosed.mark]
  exact ⟨{ l.emit x with pos }, hmark ▸ hrun, rfl, rfl, rfl⟩

theorem exists_opened {l : Lexer} (hl : l.mode = .text) :
    ∃ m, ['{', '{'].foldlM step l = .ok m ∧ m.mode = .opened l.pos ∧ m.flush = l.flush := by
  obtain ⟨pos, literal, done, mode⟩ := l
  cases hl
  exact ⟨_, rfl, rfl, rfl⟩

theorem step_opened {l : Lexer} {start : Position} (hl : l.mode = .opened start) {c : Char}
    (hc : c ≠ '!' ∧ c ≠ '{') : l.step c = step { l with mode := .inside .tag start [] } c := by
  simp [step, read, hl, hc.1, hc.2, inside, leave, emit, flush]

theorem not_infix_of_isChain {cs : List Char} (h : cs.IsChain Unclosing) :
    ¬ ['}', '}'] <:+: cs := by
  intro hin
  simpa using List.IsChain.infix h hin

theorem emits_content {l : Lexer} (hl : l.mode = .text) {c : Char} {cs : List Char}
    (hcontent : Sealed (c :: cs)) (hc : c ≠ '!' ∧ c ≠ '{' ∧ Text.isSpace c = false) {x : Lexeme}
    (hx : tag l.pos (c :: cs) = .ok x) : ∃ l', Emits l (braced (c :: cs)) x l' := by
  obtain ⟨m, hrun, hmode, hflush⟩ := exists_opened hl
  have htrim : Text.trimChars (c :: cs) = c :: cs :=
    Text.trimChars_eq (by simpa using hc.2.2) hcontent.getLast
  obtain ⟨l', h⟩ := emits_enclosed (l := { m with mode := .inside .tag l.pos [] }) rfl
    (not_infix_of_isChain hcontent.isChain) (x := x) fun n => by simp only [leave, htrim, hx]
  refine ⟨l', ?_, h.mode_eq, h.literal_eq, h.done_eq.trans (congrArg (x :: ·) hflush)⟩
  have hbraced : braced (c :: cs) = ['{', '{'] ++ (c :: cs ++ Enclosed.tag.mark) := rfl
  rw [hbraced, List.foldlM_append, hrun]
  change (c :: cs ++ Enclosed.tag.mark).foldlM step m = _
  rw [← h.run]
  exact congrArg (· >>= _) (step_opened hmode ⟨hc.1, hc.2.1⟩)

theorem emits_braced {l : Lexer} (hl : l.mode = .text) {c : Char} {cs : List Char}
    (hcontent : Sealed (c :: cs)) (hc : c ≠ '!' ∧ c ≠ '{' ∧ Text.isSpace c = false)
    {P : Lexeme → Prop} (hx : ∀ start, ∃ x, tag start (c :: cs) = .ok x ∧ P x) :
    ∃ l' x, Emits l (braced (c :: cs)) x l' ∧ P x := by
  obtain ⟨x, htag, hx⟩ := hx l.pos
  obtain ⟨l', h⟩ := emits_content hl hcontent hc htag
  exact ⟨l', x, h, hx⟩

theorem emits_raw {l : Lexer} (hl : l.mode = .text) {content : List Char}
    (hcontent : Plain content) :
    ∃ l', Emits l ('{' :: (braced content ++ ['}']))
      (.output (String.ofList content) true l.pos) l' := by
  obtain ⟨m, hrun, hmode, hflush⟩ := exists_opened hl
  have hmark : ¬ Enclosed.raw.mark <:+: content ++ Enclosed.raw.mark.dropLast := by
    -- Two braces are too few for the mark.
    have hnone : content.count '}' = 0 := List.count_eq_zero_of_not_mem (hcontent.not_mem rfl)
    intro hin
    have hcount := hin.sublist.count_le '}'
    simp [Enclosed.mark, hnone] at hcount
  obtain ⟨l', h⟩ := emits_enclosed
    (l := { m with pos := m.pos.next '{', mode := .inside .raw l.pos [] }) rfl hmark
    (x := .output (String.ofList content) true l.pos) fun n => by rw [leave, hcontent.trimChars]
  refine ⟨l', ?_, h.mode_eq, h.literal_eq, h.done_eq.trans (congrArg (_ :: ·) hflush)⟩
  have hbraced : '{' :: (braced content ++ ['}']) =
      ['{', '{'] ++ '{' :: (content ++ Enclosed.raw.mark) := by simp [braced, Enclosed.mark]
  have hread : m.read '{' = .ok { m with mode := .inside .raw l.pos [] } := by
    rw [read, hmode]
    rfl
  rw [hbraced, List.foldlM_append, hrun]
  exact (foldlM_of_step (step_eq_ok hread) _).trans h.run

end Lexer

namespace Opening

def chars : Opening → List Char
  | cond test negate => (cond test negate).name.toList ++ ' ' :: test.text.toList
  | each source => (each source).name.toList ++ ' ' :: source.text.toList
  | invoke c => '>' :: ' ' :: c.chars

def Written : Opening → Prop
  | cond test _ => reference test.text = .ok test
  | each source => reference source.text = .ok source
  | invoke c => c.Written

end Opening

namespace Tag

def chars : Tag → List Char
  | text s => escapeFrom 0 s.toList
  | output what false _ => braced what.text.toList
  | output what true _ => '{' :: (braced what.text.toList ++ ['}'])
  | call c _ => braced ('>' :: ' ' :: c.chars)
  | enter o _ => braced ('#' :: o.chars)
  | otherwise => braced "else".toList
  | leave name => braced ('/' :: name.toList)

def unplaced : Tag → Tag
  | text s => text s
  | output what raw _ => output what raw ⟨1, 1⟩
  | call c _ => call c ⟨1, 1⟩
  | enter o _ => enter o ⟨1, 1⟩
  | otherwise => otherwise
  | leave name => leave name

def Written : Tag → Prop
  | text s => s ≠ ""
  | output what raw _ => Template.output what.text = .ok what ∧
    (raw = false → ∀ pos, Lexer.tag pos what.text.toList = .ok (.output what.text false pos))
  | call c _ => c.Written
  | enter o _ => o.Written
  | otherwise => True
  | leave name => Plain name.toList

def text? : Tag → Option String
  | text s => some s
  | output _ _ _ | call _ _ | enter _ _ | otherwise | leave _ => none

end Tag

def Lexeme.Means (x : Lexeme) (t : Tag) : Prop := ∃ t', x.tag = .ok t' ∧ t'.unplaced = t.unplaced

theorem isSpace_mark : Text.isSpace '>' = false := by decide

theorem Sealed.marked {cs : List Char} (h : Sealed cs) (hne : cs ≠ []) :
    Sealed ('>' :: ' ' :: cs) :=
  (h.cons (by decide) hne).cons (by decide) (by simp)

theorem Sealed.trimChars_space {cs : List Char} (h : Sealed cs)
    (hhead : ∀ c ∈ cs.head?, Text.isSpace c = false) : Text.trimChars (' ' :: cs) = cs :=
  (Text.trimChars_cons (by decide) cs).trans (Text.trimChars_eq hhead h.getLast)

theorem isSpace_head_append {name : List Char} (hname : Plain name) (rest : List Char) :
    ∀ c ∈ (name ++ rest).head?, Text.isSpace c = false := by
  intro c hc
  rw [List.head?_append_of_ne_nil _ hname.ne_nil] at hc
  exact isSpace_of_isPlain (hname.isPlain c (List.mem_of_mem_head? hc))

end Template

namespace Call.Written

open Template

theorem sealed_marked {c : Call} (h : c.Written) : Sealed ('>' :: ' ' :: c.chars) :=
  h.sealed_chars.marked (by simp [chars, (plain_of_isFragmentName h.name).ne_nil])

theorem trimChars_eq {c : Call} (h : c.Written) : Text.trimChars (' ' :: c.chars) = c.chars :=
  h.sealed_chars.trimChars_space (isSpace_head_append (plain_of_isFragmentName h.name) _)

end Call.Written

namespace Template

theorem pure_bind_ok {x : Except SyntaxFault α} {a : α} (h : x = .ok a) (f : α → Tag) :
    (do return f (← x) : Except SyntaxFault Tag) = .ok (f a) := by
  rw [h]
  rfl

namespace Lexer

theorem emits_output {l : Lexer} (hl : l.mode = .text) {what : Output} {raw : Bool}
    {pos : Position} (h : (Tag.output what raw pos).Written) :
    ∃ l' x, Emits l (Tag.output what raw pos).chars x l' ∧ x.Means (.output what raw pos) := by
  obtain ⟨hwhat, htag⟩ := h
  obtain ⟨-, hplain⟩ := output_eq_ok hwhat
  have hmeans (start : Position) :
      (Lexeme.output what.text raw start).Means (.output what raw pos) :=
    ⟨.output what raw start, pure_bind_ok hwhat _, rfl⟩
  cases raw with
  | false =>
    obtain ⟨c, cs, hcs⟩ := List.exists_cons_of_ne_nil hplain.ne_nil
    have hc : isPlain c := hplain.isPlain c (by simp [hcs])
    have hsealed := hplain.word.isSealed
    rw [Tag.chars, hcs]
    rw [hcs] at hsealed htag
    exact emits_braced hl hsealed
      ⟨ne_of_isPlain hc rfl, ne_of_isPlain hc rfl, isSpace_of_isPlain hc⟩
      fun start => ⟨_, htag rfl start, hmeans start⟩
  | true =>
    obtain ⟨l', h⟩ := emits_raw hl hplain
    exact ⟨l', _, h, by simpa using hmeans l.pos⟩

theorem emits_call {l : Lexer} (hl : l.mode = .text) {c : Call} (h : c.Written) (pos : Position) :
    ∃ l' x, Emits l (Tag.call c pos).chars x l' ∧ x.Means (.call c pos) :=
  emits_braced hl h.sealed_marked (by decide) fun start =>
    ⟨.call (String.ofList c.chars) start, by rw [tag, h.trimChars_eq],
      .call c start, pure_bind_ok h.call_eq _, rfl⟩

theorem block_keyword (keyword : Keyword) {cs : List Char} (h : Plain cs) (start : Position) :
    block start (Text.trimLeft (keyword.text.toList ++ ' ' :: cs)) =
      .ok (.openBlock keyword (String.ofList cs) start) := by
  have hblock : block start (Text.trimLeft (keyword.text.toList ++ ' ' :: cs)) =
      .ok (.openBlock keyword (String.ofList (Text.trimChars cs)) start) := by
    cases keyword <;> rfl
  rw [hblock, h.trimChars]

theorem emits_block {l : Lexer} (hl : l.mode = .text) (keyword : Keyword) {r : Reference}
    (h : reference r.text = .ok r) (pos : Position) :
    ∃ l' x, Emits l (braced ('#' :: (keyword.text.toList ++ ' ' :: r.text.toList))) x l' ∧
      x.Means (.enter (Builder.blockOpening keyword r) pos) := by
  have hplain := (reference_eq_ok h).2
  have hkeyword : Sealed keyword.text.toList := (plain_keyword keyword).word.isSealed
  have hreference : Sealed (' ' :: r.text.toList) :=
    hplain.word.isSealed.cons (by decide) hplain.ne_nil
  refine emits_braced hl ((hkeyword.append hreference).cons (by decide) (by simp)) (by decide)
    fun start => ⟨.openBlock keyword r.text start, ?_,
      .enter (Builder.blockOpening keyword r) start, pure_bind_ok (blockReference_text h) _, rfl⟩
  rw [tag, block_keyword keyword hplain, String.ofList_toList]

theorem emits_enter {l : Lexer} (hl : l.mode = .text) {o : Opening} (h : o.Written)
    (pos : Position) : ∃ l' x, Emits l (Tag.enter o pos).chars x l' ∧ x.Means (.enter o pos) := by
  cases o with
  | invoke c =>
    refine emits_braced hl (h.sealed_marked.cons (by decide) (by simp)) (by decide) fun start =>
      ⟨.openCall (String.ofList c.chars) start, ?_,
        .enter (.invoke c) start, pure_bind_ok h.call_eq _, rfl⟩
    simp [tag, Text.trimLeft, isSpace_mark, block, h.trimChars_eq]
  | cond test negate =>
    cases negate with
    | false => exact emits_block hl .whenTrue h pos
    | true => exact emits_block hl .whenFalse h pos
  | each source => exact emits_block hl .each h pos

theorem emits_tag {l : Lexer} (hl : l.mode = .text) {t : Tag} (h : t.Written)
    (ht : t.text? = none) : ∃ l' x, Emits l t.chars x l' ∧ x.Means t := by
  cases t with
  | text s => cases ht
  | output what raw pos => exact emits_output hl h
  | call c pos => exact emits_call hl h pos
  | enter o pos => exact emits_enter hl h pos
  | otherwise =>
    have helse : Plain "else".toList := by decide
    exact emits_braced hl helse.word.isSealed (by decide) fun start =>
      ⟨.otherwise start, rfl, .otherwise, rfl, rfl⟩
  | leave name =>
    refine emits_braced hl (h.word.isSealed.cons (by decide) h.ne_nil) (by decide) fun start =>
      ⟨.close name start, ?_, .leave name, rfl, rfl⟩
    rw [tag, h.trimChars, String.ofList_toList]

end Lexer

end Template

end StaticSite
