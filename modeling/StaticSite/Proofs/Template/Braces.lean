import StaticSite.Proofs.Template.Lexed

namespace StaticSite.Template

def bracesChars (n : Nat) : List Char :=
  List.replicate (n % 2) '{' ++ (List.replicate (n / 2) ['\\', '{', '{']).flatten

def escapeFrom (n : Nat) : List Char → List Char
  | [] => bracesChars n
  | c :: cs => if c = '{' then escapeFrom (n + 1) cs else bracesChars n ++ c :: escapeFrom 0 cs

example : escapeFrom 0 ['{', 'a', '{', '{', '{'] = ['{', 'a', '{', '\\', '{', '{'] := rfl

def Mode.pending? : Mode → Option (List Char)
  | .text => some []
  | .escape => some ['\\']
  | .escapeBrace => some ['\\', '{']
  | .brace _ => some ['{']
  | .opened _ | .bang _ | .bangDash _ | .inside _ _ _ => none

namespace Lexer

def text? (l : Lexer) : Option (List Char) := l.mode.pending?.map (l.literal.reverse ++ ·)

structure Reads (l : Lexer) (cs text : List Char) (l' : Lexer) : Prop where
  run : cs.foldlM step l = .ok l'
  done_eq : l'.done = l.done
  text_eq : ∀ before ∈ l.text?, l'.text? = some (before ++ text)

theorem Reads.nil (l : Lexer) : Reads l [] [] l := ⟨rfl, rfl, fun before h => by simpa using h⟩

theorem Reads.append {l m n : Lexer} {cs ds text text' : List Char} (h : Reads l cs text m)
    (h' : Reads m ds text' n) : Reads l (cs ++ ds) (text ++ text') n where
  run := by
    rw [List.foldlM_append, h.run]
    exact h'.run
  done_eq := h'.done_eq.trans h.done_eq
  text_eq before hbefore := by
    rw [h'.text_eq _ (h.text_eq before hbefore), List.append_assoc]

theorem exists_pending {l : Lexer} {before : List Char} (h : l.text? = some before) :
    ∃ cs, l.mode.pending? = some cs ∧ l.literal.reverse ++ cs = before :=
  Option.map_eq_some_iff.mp h

theorem read_of_pending {l : Lexer} {cs : List Char} (h : l.mode.pending? = some cs) {c : Char}
    (hc : c ≠ '{') : l.read c = .ok ((l.put cs).inText c) := by
  obtain ⟨pos, literal, done, mode⟩ := l
  cases mode <;> simp [Mode.pending?] at h <;> subst h <;> simp [read, hc, put]

theorem step_eq_ok {l l' : Lexer} {c : Char} (h : l.read c = .ok l') :
    l.step c = .ok { l' with pos := l'.pos.next c } := by
  rw [step, h]
  rfl

theorem foldlM_of_step {l l' : Lexer} {c : Char} (h : l.step c = .ok l') (cs : List Char) :
    (c :: cs).foldlM step l = cs.foldlM step l' := by
  rw [List.foldlM_cons, h]
  rfl

theorem reads_singleton {l l' : Lexer} {before text : List Char} {c : Char}
    (hl : l.text? = some before) (h : l.read c = .ok l') (hdone : l'.done = l.done)
    (htext : l'.text? = some (before ++ text)) :
    Reads l [c] text { l' with pos := l'.pos.next c } where
  run := foldlM_of_step (step_eq_ok h) []
  done_eq := hdone
  text_eq b hb := by
    obtain rfl : b = before := Option.some.inj (hb.symm.trans hl)
    exact htext

theorem reads_other {l : Lexer} {before : List Char} (h : l.text? = some before) {c : Char}
    (hc : c ≠ '{') :
    ∃ l', Reads l [c] [c] l' ∧ l'.mode = if c = '\\' then .escape else .text := by
  obtain ⟨cs, hcs, rfl⟩ := exists_pending h
  have hread := read_of_pending hcs hc
  by_cases hslash : c = '\\'
  · have hin : (l.put cs).inText c = { l.put cs with mode := .escape } := by simp [inText, hslash]
    rw [hin] at hread
    refine ⟨_, reads_singleton h hread rfl ?_, ?_⟩
    · simp [text?, Mode.pending?, put, hslash]
    · simp [hslash]
  · have hin : (l.put cs).inText c = (l.put cs).put [c] := by simp [inText, hslash, hc]
    rw [hin] at hread
    refine ⟨_, reads_singleton h hread rfl ?_, ?_⟩
    · simp [text?, Mode.pending?, put]
    · simp [hslash, put]

theorem reads_escape {l : Lexer} {before : List Char} (h : l.text? = some before) :
    ∃ l', Reads l ['\\', '{', '{'] ['{', '{'] l' ∧ l'.mode = .text := by
  obtain ⟨⟨pos, literal, done, mode⟩, hm, hmode⟩ := reads_other h (c := '\\') (by decide)
  cases hmode
  refine ⟨⟨(pos.next '{').next '{', '{' :: '{' :: literal, done, .text⟩, ⟨?_, hm.done_eq, ?_⟩, rfl⟩
  · rw [← List.singleton_append, List.foldlM_append, hm.run]
    rfl
  · intro b hb
    have htext := hm.text_eq b hb
    simpa [text?, Mode.pending?] using htext

theorem reads_brace {l : Lexer} {before : List Char} (h : l.text? = some before)
    (hmode : l.mode = .text ∨ l.mode = .escape) :
    ∃ l', Reads l ['{'] ['{'] l' ∧ (l'.mode = .escapeBrace ∨ l'.literal.reverse = before) := by
  obtain ⟨pos, literal, done, mode⟩ := l
  obtain rfl | rfl := hmode
  · obtain rfl : literal.reverse = before := by simpa [text?, Mode.pending?] using h
    exact ⟨_, reads_singleton h rfl rfl rfl, .inr rfl⟩
  · obtain rfl : literal.reverse ++ ['\\'] = before := Option.some.inj h
    exact ⟨_, reads_singleton h rfl rfl (by simp [text?, Mode.pending?]), .inl rfl⟩

def Lone (l : Lexer) : Prop := ∀ start, l.mode = .brace start → l.literal.head? ≠ some '{'

structure Ready (l : Lexer) (text : List Char) : Prop where
  text_eq : l.text? = some text
  mode : l.mode = .text ∨ l.mode = .escape
  last : text.getLast? ≠ some '{'

theorem Ready.lone {l : Lexer} {text : List Char} (h : l.Ready text) : l.Lone := by
  intro start hstart
  obtain hmode | hmode := h.mode
  all_goals
    rw [hmode] at hstart
    cases hstart

theorem Ready.reads_brace {l : Lexer} {before : List Char} (h : l.Ready before) :
    ∃ l', Reads l ['{'] ['{'] l' ∧ l'.Lone := by
  obtain ⟨l', hl', hend⟩ := Lexer.reads_brace h.text_eq h.mode
  refine ⟨l', hl', fun start hstart => ?_⟩
  obtain hmode | hliteral := hend
  · rw [hmode] at hstart
    cases hstart
  · simpa [← hliteral] using h.last

theorem reads_pairs {l : Lexer} {before : List Char} (h : l.text? = some before) (k : Nat) :
    ∃ l', Reads l (List.replicate k ['\\', '{', '{']).flatten (List.replicate (2 * k) '{') l' ∧
      (l'.mode = .text ∨ l' = l) := by
  induction k generalizing l before with
  | zero => exact ⟨l, .nil l, .inr rfl⟩
  | succ k ih =>
    obtain ⟨m, hm, hmode⟩ := reads_escape h
    obtain ⟨n, hn, hend⟩ := ih (hm.text_eq before h)
    refine ⟨n, ?_, .inl (hend.elim id fun heq => heq ▸ hmode)⟩
    simpa [List.replicate_succ, Nat.mul_succ] using hm.append hn

theorem Ready.reads_braces {l : Lexer} {before : List Char} (h : l.Ready before) (n : Nat) :
    ∃ l', Reads l (bracesChars n) (List.replicate n '{') l' ∧ l'.Lone := by
  have hodd : ∃ m,
      Reads l (List.replicate (n % 2) '{') (List.replicate (n % 2) '{') m ∧ m.Lone := by
    obtain hn | hn := Nat.mod_two_eq_zero_or_one n <;> rw [hn]
    · exact ⟨l, .nil l, h.lone⟩
    · exact h.reads_brace
  obtain ⟨m, hm, hlone⟩ := hodd
  obtain ⟨l', hl', hend⟩ := reads_pairs (hm.text_eq before h.text_eq) (n / 2)
  refine ⟨l', ?_, ?_⟩
  · simpa only [bracesChars, ← List.replicate_add, Nat.mod_add_div] using hm.append hl'
  · obtain hmode | rfl := hend
    · intro start hstart
      rw [hmode] at hstart
      cases hstart
    · exact hlone

theorem Ready.reads_escapeFrom {l : Lexer} {before : List Char} (h : l.Ready before) (n : Nat)
    (cs : List Char) :
    ∃ l', Reads l (escapeFrom n cs) (List.replicate n '{' ++ cs) l' ∧ l'.Lone := by
  -- Along a run `n` grows and nothing is read: its braces are written where it ends.
  induction cs generalizing l before n with
  | nil => simpa [escapeFrom] using h.reads_braces n
  | cons c cs ih =>
    rw [escapeFrom]
    split
    · next hc =>
      subst hc
      simpa [List.replicate_succ', List.append_assoc] using ih h (n + 1)
    · next hc =>
      obtain ⟨m, hm, -⟩ := h.reads_braces n
      obtain ⟨m', hm', hmode⟩ := reads_other (hm.text_eq before h.text_eq) hc
      have hready : m'.Ready _ := {
        text_eq := hm'.text_eq _ (hm.text_eq before h.text_eq)
        mode := by
          rw [hmode]
          split
          · exact .inr rfl
          · exact .inl rfl
        last := by simpa using hc }
      obtain ⟨l', hl', hlone⟩ := ih hready 0
      exact ⟨l', by simpa using hm.append (hm'.append hl'), hlone⟩

theorem exists_text {l : Lexer} (hl : l.mode = .text) (hnil : l.literal = []) (cs : List Char) :
    ∃ m, (escapeFrom 0 cs).foldlM step l = .ok m ∧ m.done = l.done ∧ m.text? = some cs ∧ m.Lone := by
  have hready : l.Ready [] := {
    text_eq := by simp [text?, hl, hnil, Mode.pending?]
    mode := .inl hl
    last := nofun }
  obtain ⟨m, hm, hlone⟩ := hready.reads_escapeFrom 0 cs
  exact ⟨m, hm.run, hm.done_eq, hm.text_eq [] hready.text_eq, hlone⟩

theorem mode_of_safeEnd {l : Lexer} {text : List Char} (h : l.text? = some text) (hlone : l.Lone)
    (hsafe : SafeEnd text) : l.mode = .text ∧ l.literal.reverse = text := by
  obtain ⟨pos, literal, done, mode⟩ := l
  obtain ⟨cs, hcs, rfl⟩ := exists_pending h
  cases mode with
  | text =>
    cases hcs
    exact ⟨rfl, by simp⟩
  | escape =>
    cases hcs
    exact absurd (by simp) hsafe.backslash
  | escapeBrace =>
    cases hcs
    exact absurd (hsafe.brace (literal.reverse ++ ['\\']) (by simp)) (by simp)
  | brace start =>
    cases hcs
    exact absurd (hsafe.brace literal.reverse rfl) (by simpa using hlone start rfl)
  | opened start | bang start | bangDash start | inside what start rev => cases hcs

theorem flush_of_ne {l : Lexer} (h : l.literal ≠ []) :
    l.flush = .text (String.ofList l.literal.reverse) :: l.done := by
  simp [flush, h]

theorem flush_of_nil {l : Lexer} (h : l.literal = []) : l.flush = l.done := by
  simp [flush, h]

theorem finish_of_text {l : Lexer} {text : List Char} (h : l.text? = some text) (hne : text ≠ []) :
    l.finish = .ok (l.done.reverse ++ [.text (String.ofList text)]) := by
  obtain ⟨pos, literal, done, mode⟩ := l
  obtain ⟨cs, hcs, rfl⟩ := exists_pending h
  have hput : (put ⟨pos, literal, done, mode⟩ cs).flush.reverse =
      done.reverse ++ [.text (String.ofList (literal.reverse ++ cs))] := by
    rw [flush_of_ne (by simpa [put, and_comm] using hne)]
    simp [put]
  cases mode with
  | text =>
    cases hcs
    simpa [finish, put] using hput
  | escape => cases hcs; rw [finish, hput]
  | escapeBrace => cases hcs; rw [finish, hput]
  | brace start => cases hcs; rw [finish, hput]
  | opened start | bang start | bangDash start | inside what start rev => cases hcs

end Lexer

end StaticSite.Template
