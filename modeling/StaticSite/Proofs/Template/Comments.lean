import StaticSite.Proofs.Template.Quoting
import StaticSite.Proofs.Template.Unplaced

namespace StaticSite

namespace Template

/-- A comment with its braces: it ends where its closing mark first stands, and that is a longer one
if it begins with two hyphens. -/
inductive Comment : List Char → Prop
  | short {content : List Char} : ¬ ['-', '-'] <+: content ++ ['}', '}'] →
    ¬ ['}', '}'] <:+: content ++ ['}'] →
    Comment (['{', '{', '!'] ++ (content ++ ['}', '}']))
  | long {content : List Char} : ['-', '-'] <+: content ++ ['-', '-', '}', '}'] →
    ¬ ['-', '-', '}', '}'] <:+: content ++ ['-', '-', '}'] →
    Comment (['{', '{', '!'] ++ (content ++ ['-', '-', '}', '}']))

namespace Lexer

theorem exists_bang {l : Lexer} (hl : l.mode = .text) :
    ∃ pos, ['{', '{', '!'].foldlM step l = .ok { l with pos, mode := .bang l.pos } := by
  obtain ⟨pos, literal, done, mode⟩ := l
  cases hl
  exact ⟨_, rfl⟩

theorem step_bang {l : Lexer} {start : Position} (hl : l.mode = .bang start) {c : Char}
    (hc : c ≠ '-') : l.step c = step { l with mode := .inside .comment start [] } c := by
  simp [step, read, hl, hc, inside, leave]

theorem step_bangDash {l : Lexer} {start : Position} (hl : l.mode = .bangDash start) {c : Char}
    (hc : c ≠ '-') : l.step c = step { l with mode := .inside .comment start ['-'] } c := by
  simp [step, read, hl, hc, inside, leave]

theorem foldlM_bang {l : Lexer} {start : Position} (hl : l.mode = .bang start) {c d : Char}
    {cs : List Char} (h : ¬ ['-', '-'] <+: c :: d :: cs) :
    (c :: d :: cs).foldlM step l =
      (c :: d :: cs).foldlM step { l with mode := .inside .comment start [] } := by
  by_cases hc : c = '-'
  · subst hc
    have hd : d ≠ '-' := by
      rintro rfl
      exact h ⟨cs, rfl⟩
    have hread : l.read '-' = .ok { l with mode := .bangDash start } := by
      rw [read, hl]
      rfl
    rw [foldlM_of_step (step_eq_ok hread), List.foldlM_cons, step_bangDash rfl hd]
    rfl
  · rw [List.foldlM_cons, step_bang hl hc]
    rfl

end Lexer

theorem Comment.foldlM_step {cs : List Char} (h : Comment cs) {l : Lexer} (hl : l.mode = .text) :
    ∃ pos, cs.foldlM Lexer.step l = .ok { l with pos } := by
  obtain ⟨pos, hbang⟩ := Lexer.exists_bang hl
  cases h with
  | @short content hstart hmark =>
    have hrun : ∃ pos', ((content ++ ['}']) ++ ['}']).foldlM Lexer.step
        { l with pos, mode := .inside .comment l.pos [] } = .ok { l with pos := pos' } :=
      Lexer.foldlM_enclosed rfl rfl hmark fun _ _ => congrArg Except.ok (by rw [← hl])
    obtain ⟨c, d, ds, hcontent⟩ : ∃ c d ds, content ++ ['}', '}'] = c :: d :: ds := by
      match content with
      | [] => exact ⟨_, _, _, rfl⟩
      | [c] => exact ⟨_, _, _, rfl⟩
      | c :: d :: ds => exact ⟨_, _, _, rfl⟩
    obtain ⟨pos', hrun⟩ := hrun
    refine ⟨pos', ?_⟩
    rw [List.append_assoc, List.singleton_append, hcontent] at hrun
    rw [hcontent] at hstart ⊢
    rw [List.foldlM_append, hbang]
    exact (Lexer.foldlM_bang rfl hstart).trans hrun
  | @long content hstart hmark =>
    -- The hyphens at the start may be those of the mark.
    obtain ⟨rest, hrest⟩ : ['-', '-'] <+: content ++ ['-', '-', '}'] :=
      List.prefix_of_prefix_length_le hstart ⟨['}'], by simp⟩ (by simp)
    have hrun : ∃ pos', (rest ++ ['}']).foldlM Lexer.step
        { l with pos := (pos.next '-').next '-', mode := .inside .longComment l.pos ['-', '-'] } =
          .ok { l with pos := pos' } :=
      Lexer.foldlM_enclosed rfl hrest (hrest ▸ hmark) fun _ _ => congrArg Except.ok (by rw [← hl])
    obtain ⟨pos', hrun⟩ := hrun
    have htext : content ++ ['-', '-', '}', '}'] = ['-', '-'] ++ (rest ++ ['}']) := by
      rw [← List.append_assoc, hrest]
      simp
    refine ⟨pos', ?_⟩
    rw [htext, List.foldlM_append, hbang]
    exact hrun

namespace Lexer

def Settled (l : Lexer) : Prop := l.mode = .text ∨ l.mode.pending? = none

theorem leave_settled {l l' : Lexer} {what : Enclosed} {start : Position} {content : List Char}
    (h : l.leave what start content = .ok l') : l'.Settled := by
  cases what with
  | comment | longComment | raw =>
    cases h
    exact .inl rfl
  | tag =>
    rw [leave] at h
    split at h <;> cases h
    exact .inl rfl

theorem inside_settled {l l' : Lexer} {what : Enclosed} {start : Position} {rev : List Char}
    {c : Char} (h : l.inside what start rev c = .ok l') : l'.Settled := by
  rw [inside] at h
  split at h
  · exact leave_settled h
  · cases h
    exact .inr rfl

theorem inText_settled (l : Lexer) {c : Char} (hc : c ≠ '{' ∧ c ≠ '\\') :
    (l.inText c).Settled := .inl (by simp [inText, hc, put])

theorem read_settled {l l' : Lexer} {c : Char} (hc : c ≠ '{' ∧ c ≠ '\\')
    (h : l.read c = .ok l') : l'.Settled := by
  cases hpending : l.mode.pending? with
  | some cs =>
    rw [read_of_pending hpending hc.1] at h
    cases h
    exact inText_settled _ hc
  | none =>
    unfold read at h
    cases hmode : l.mode with
    | text | escape | escapeBrace | brace start =>
      rw [hmode] at hpending
      cases hpending
    | opened start =>
      simp only [hmode] at h
      split_ifs at h
      · cases h
        exact .inr rfl
      · cases h
        exact .inr rfl
      · exact inside_settled h
    | bang start | bangDash start =>
      simp only [hmode] at h
      split_ifs at h
      · cases h
        exact .inr rfl
      · exact inside_settled h
    | inside what start rev =>
      rw [hmode] at h
      exact inside_settled h

theorem Settled.mode_eq {l : Lexer} (h : l.Settled) {ls : List Lexeme} (hl : l.finish = .ok ls) :
    l.mode = .text := by
  refine h.resolve_right fun hnone => ?_
  obtain ⟨pos, literal, done, mode⟩ := l
  cases mode with
  | text | escape | escapeBrace | brace start => cases hnone
  | opened start | bang start | bangDash start | inside what start rev => cases hl

end Lexer

theorem mode_of_lexemes {line : Nat} {cs : List Char} {l : Lexer} {ls : List Lexeme}
    (h : lexemes line cs = .ok ls) (hrun : cs.foldlM Lexer.step { pos := ⟨line, 1⟩ } = .ok l)
    (hend : cs.getLast? ≠ some '{' ∧ cs.getLast? ≠ some '\\') : l.mode = .text := by
  have hfinish : l.finish = .ok ls := by
    rw [lexemes, hrun] at h
    exact h
  obtain rfl | ⟨init, d, rfl⟩ := cs.eq_nil_or_concat'
  · cases hrun
    rfl
  · rw [List.foldlM_append] at hrun
    obtain ⟨m, -, hstep⟩ := exists_of_bind_eq_ok hrun
    obtain ⟨n, hn, hl⟩ := exists_of_bind_eq_ok hstep
    cases hl
    obtain ⟨k, hk, hn⟩ := exists_of_bind_eq_ok hn
    cases hn
    have hsettled : k.Settled := Lexer.read_settled (by simpa using hend) hk
    exact Lexer.Settled.mode_eq (l := { k with pos := k.pos.next d }) hsettled hfinish

theorem lexemes_comment {line : Nat} {a b c : List Char} {ls : List Lexeme}
    (hc : Comment c) (ha : lexemes line a = .ok ls)
    (hend : a.getLast? ≠ some '{' ∧ a.getLast? ≠ some '\\') :
    (lexemes line (a ++ c ++ b)).toOption.map (List.map Lexeme.unplaced) =
      (lexemes line (a ++ b)).toOption.map (List.map Lexeme.unplaced) := by
  obtain ⟨l, hrun, -⟩ := exists_of_bind_eq_ok ha
  obtain ⟨pos, hcomment⟩ := hc.foldlM_step (mode_of_lexemes ha hrun hend)
  have hwith : (a ++ c ++ b).foldlM Lexer.step { pos := ⟨line, 1⟩ } =
      b.foldlM Lexer.step { l with pos } := by
    rw [List.foldlM_append, List.foldlM_append, hrun]
    exact congrArg (· >>= _) hcomment
  have hwithout : (a ++ b).foldlM Lexer.step { pos := ⟨line, 1⟩ } = b.foldlM Lexer.step l := by
    rw [List.foldlM_append, hrun]
    rfl
  rw [lexemes, lexemes, hwith, hwithout]
  refine toOption_bind_congr (Lexer.foldlM_unplaced b rfl) fun m n hmn => ?_
  rw [← Lexer.finish_unplaced, ← Lexer.finish_unplaced, hmn]

theorem escapeBraces_eq {cs : List Char} (h : ¬ ['{', '{'] <:+: cs) : escapeBraces cs = cs := by
  fun_induction escapeBraces cs with
  | case1 cs ih => exact absurd ⟨[], cs, rfl⟩ h
  | case2 c cs hsingle ih =>
    rw [ih fun hin => h (hin.trans (List.suffix_cons c cs).isInfix)]
  | case3 => rfl

theorem lexemes_text {line : Nat} {cs : List Char} {s : String}
    (h : (lexemes line cs).toOption.map (List.map Lexeme.unplaced) = some [.text s]) :
    lexemes line cs = .ok [.text s] := by
  cases hls : lexemes line cs with
  | error e =>
    rw [hls] at h
    cases h
  | ok ls =>
    rw [hls] at h
    obtain ⟨x, rfl, hx⟩ := List.map_eq_singleton_iff.mp (Option.some.inj h)
    cases x <;> cases hx
    rfl

/-- A comment makes no difference to what stands around it, if no brace or backslash stands right
before it; texts around it are one. -/
theorem parse_comment (a b source : String) (line : Nat) {c : String} (hc : Comment c.toList)
    (ha : ∃ ls, lexemes line a.toList = .ok ls)
    (hend : a.toList.getLast? ≠ some '{' ∧ a.toList.getLast? ≠ some '\\') :
    (parse (a ++ c ++ b) source line).toOption.map (fun t => nodesUnplaced t.nodes) =
        (parse (a ++ b) source line).toOption.map (fun t => nodesUnplaced t.nodes) ∧
      (a ++ b ≠ "" → ¬ ['{', '{'] <:+: (a ++ b).toList →
        parse (a ++ c ++ b) source line = .ok ⟨source, [.text (a ++ b)]⟩) := by
  obtain ⟨ls, ha⟩ := ha
  have hlexemes := lexemes_comment (b := b.toList) hc ha hend
  rw [← String.toList_append, ← String.toList_append, ← String.toList_append] at hlexemes
  refine ⟨?_, fun hne hbraces => parse_eq_ok_iff.mpr ⟨[.text (a ++ b)], lexemes_text ?_, rfl, rfl⟩⟩
  · rw [parse_unplaced, parse_unplaced]
    exact toOption_bind_congr hlexemes fun _ _ h => nodesOf_unplaced h
  · have htext := lexemes_escapeBraces line hne
    rw [escapeBraces_eq hbraces] at htext
    rw [hlexemes, htext]
    rfl

theorem parse_comment_long :
    parse ("a\n" ++ "\x7b\x7b!--\x7b\x7bx\x7d\x7d--\x7d\x7d" ++ " b") "s" 1 =
        .ok ⟨"s", [.text "a\n b"]⟩ ∧
      (parse ("\x7b\x7bx\x7d\x7d" ++ "\x7b\x7b!--\x7b\x7bx\x7d\x7d--\x7d\x7d" ++
          "\x7b\x7by\x7d\x7d") "s" 1).toOption.map (fun t => nodesUnplaced t.nodes) =
        (parse ("\x7b\x7bx\x7d\x7d" ++ "\x7b\x7by\x7d\x7d") "s" 1).toOption.map
          (fun t => nodesUnplaced t.nodes) := by
  have hcomment : Comment "\x7b\x7b!--\x7b\x7bx\x7d\x7d--\x7d\x7d".toList :=
    @Comment.long ['-', '-', '{', '{', 'x', '}', '}'] (by decide) (by decide)
  have htext : lexemes 1 "a\n".toList = .ok [.text "a\n"] := rfl
  have htag : lexemes 1 "\x7b\x7bx\x7d\x7d".toList = .ok [.output "x" false ⟨1, 1⟩] := rfl
  have hone := parse_comment "a\n" " b" "s" 1 hcomment ⟨_, htext⟩ (by decide)
  have hbetween := parse_comment "\x7b\x7bx\x7d\x7d" "\x7b\x7by\x7d\x7d" "s" 1 hcomment ⟨_, htag⟩
    (by decide)
  exact ⟨hone.2 (by decide) (by decide), hbetween.1⟩

end Template

end StaticSite
