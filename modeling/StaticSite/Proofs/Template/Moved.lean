import Mathlib.Tactic.SplitIfs
import StaticSite.Proofs.Outcome
import StaticSite.Template.Lexeme

namespace StaticSite.Template

def Lexeme.moved (f : Position → Position) : Lexeme → Lexeme
  | text s => text s
  | output content raw pos => output content raw (f pos)
  | openBlock keyword content pos => openBlock keyword content (f pos)
  | openCall content pos => openCall content (f pos)
  | call content pos => call content (f pos)
  | otherwise pos => otherwise (f pos)
  | close name pos => close name (f pos)

def Mode.moved (f : Position → Position) : Mode → Mode
  | text => text
  | escape => escape
  | escapeBrace => escapeBrace
  | brace start => brace (f start)
  | opened start => opened (f start)
  | bang start => bang (f start)
  | bangDash start => bangDash (f start)
  | inside what start rev => inside what (f start) rev

namespace Lexer

variable (f : Position → Position) (l : Lexer)

def moved : Lexer where
  pos := f l.pos
  literal := l.literal
  done := l.done.map (Lexeme.moved f)
  mode := l.mode.moved f

theorem inText_moved (c : Char) : (l.moved f).inText c = (l.inText c).moved f := by
  unfold inText
  split_ifs <;> rfl

theorem inText_put_moved (cs : List Char) (c : Char) :
    ((l.moved f).put cs).inText c = ((l.put cs).inText c).moved f :=
  inText_moved f (l.put cs) c

theorem flush_moved : (l.moved f).flush = l.flush.map (Lexeme.moved f) := by
  unfold flush
  split_ifs <;> first | rfl | contradiction

theorem emit_moved (x : Lexeme) : (l.moved f).emit (x.moved f) = (l.emit x).moved f := by
  rw [emit, emit, flush_moved]
  rfl

theorem block_moved (pos : Position) (cs : List Char) :
    block (f pos) cs = (block pos cs).map (Lexeme.moved f) := by
  unfold block
  split
  · rfl
  · simp only
    split <;> rfl

theorem tag_moved (pos : Position) (cs : List Char) :
    tag (f pos) cs = (tag pos cs).map (Lexeme.moved f) := by
  unfold tag
  split
  · rfl
  · exact block_moved f pos _
  · rfl
  · rfl
  · simp only [Except.map]
    split_ifs <;> rfl

theorem leave_moved (what : Enclosed) (start : Position) (content : List Char) :
    ((l.moved f).leave what (f start) content).toOption =
      (l.leave what start content).toOption.map (moved f) := by
  cases what with
  | comment | longComment => rfl
  | raw => exact congrArg some (emit_moved f l (.output _ true start))
  | tag =>
    simp only [leave, tag_moved f start]
    cases tag start (Text.trimChars content) with
    | error e => rfl
    | ok x => exact congrArg some (emit_moved f l x)

theorem inside_moved (what : Enclosed) (start : Position) (rev : List Char) (c : Char) :
    ((l.moved f).inside what (f start) rev c).toOption =
      (l.inside what start rev c).toOption.map (moved f) := by
  simp only [inside]
  split_ifs
  · exact leave_moved f l what start _
  · rfl

theorem read_moved (c : Char) :
    ((l.moved f).read c).toOption = (l.read c).toOption.map (moved f) := by
  have hmode : (l.moved f).mode = l.mode.moved f := rfl
  unfold read
  rw [hmode]
  cases l.mode with
  | text => exact congrArg some (inText_moved f l c)
  | escape | escapeBrace | brace start =>
    simp only [Mode.moved]
    split_ifs <;> first | rfl | exact congrArg some (inText_put_moved f l _ c)
  | opened start | bang start | bangDash start =>
    simp only [Mode.moved]
    split_ifs <;> first | rfl | exact inside_moved f l _ start _ c
  | inside what start rev => exact inside_moved f l what start rev c

theorem finish_moved :
    (l.moved f).finish.toOption = l.finish.toOption.map (List.map (Lexeme.moved f)) := by
  have hmode : (l.moved f).mode = l.mode.moved f := rfl
  have hflush (m : Lexer) :
      some (m.moved f).flush.reverse = some (m.flush.reverse.map (Lexeme.moved f)) := by
    rw [flush_moved, List.map_reverse]
  unfold finish
  rw [hmode]
  cases l.mode with
  | text => exact hflush l
  | escape | escapeBrace | brace start => exact hflush (l.put _)
  | opened start | bang start | bangDash start | inside what start rev => rfl

variable {f}

theorem step_moved (hf : ∀ p c, f (Position.next p c) = (f p).next c) (c : Char) :
    ((l.moved f).step c).toOption = (l.step c).toOption.map (moved f) :=
  toOption_bind_map (read_moved f l c) fun m =>
    congrArg (fun pos => some (Lexer.mk pos m.literal (m.done.map (Lexeme.moved f))
      (m.mode.moved f))) (hf m.pos c).symm

theorem foldlM_moved (hf : ∀ p c, f (Position.next p c) = (f p).next c) (cs : List Char) :
    (cs.foldlM step (l.moved f)).toOption = (cs.foldlM step l).toOption.map (moved f) := by
  induction cs generalizing l with
  | nil => rfl
  | cons c cs ih =>
    rw [List.foldlM_cons, List.foldlM_cons]
    exact toOption_bind_map (step_moved l hf c) ih

end Lexer

theorem lexemes_moved {f : Position → Position} (hf : ∀ p c, f (Position.next p c) = (f p).next c)
    {line line' : Nat} (hline : f ⟨line, 1⟩ = ⟨line', 1⟩) (cs : List Char) :
    (lexemes line' cs).toOption = (lexemes line cs).toOption.map (List.map (Lexeme.moved f)) := by
  have hstart : ({ pos := ⟨line', 1⟩ } : Lexer) = Lexer.moved f { pos := ⟨line, 1⟩ } := by
    rw [← hline]
    rfl
  rw [lexemes, lexemes, hstart]
  exact toOption_bind_map (Lexer.foldlM_moved _ hf cs) (Lexer.finish_moved f)

theorem lexemes_eq_ok_iff_moved {f : Position → Position}
    (hf : ∀ p c, f (Position.next p c) = (f p).next c) {line line' : Nat}
    (hline : f ⟨line, 1⟩ = ⟨line', 1⟩) {cs : List Char} {ls' : List Lexeme} :
    lexemes line' cs = .ok ls' ↔
      ∃ ls, lexemes line cs = .ok ls ∧ ls.map (Lexeme.moved f) = ls' := by
  rw [← toOption_eq_some_iff, lexemes_moved hf hline cs, Option.map_eq_some_iff]
  simp only [toOption_eq_some_iff]

end StaticSite.Template
