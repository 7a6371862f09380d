import Mathlib.Data.List.Infix
import StaticSite.Proofs.Template.Words
import StaticSite.Proofs.Text.Trim
import StaticSite.Template.Lexeme

namespace StaticSite

namespace Template

/-- A text that may stand before a tag: it would read differently if a backslash or a single brace
stood at its end. -/
structure SafeEnd (cs : List Char) : Prop where
  backslash : cs.getLast? ≠ some '\\'
  brace : ∀ init, cs = init ++ ['{'] → init.getLast? = some '{'

theorem SafeEnd.nil : SafeEnd [] := ⟨nofun, by simp⟩

theorem SafeEnd.concat {cs : List Char} {c : Char} (hslash : c ≠ '\\') (hbrace : c ≠ '{') :
    SafeEnd (cs ++ [c]) where
  backslash := by simpa using hslash
  brace init h := by
    obtain ⟨-, hc⟩ := List.append_inj' h rfl
    exact absurd (List.cons.inj hc).1 hbrace

theorem SafeEnd.braces (cs : List Char) : SafeEnd (cs ++ ['{', '{']) where
  backslash := by simp
  brace init h := by
    rw [List.append_cons] at h
    obtain ⟨rfl, -⟩ := List.append_inj' h rfl
    simp

def Follows (x y : Option String) : Prop := ∀ s ∈ x, y = none ∧ SafeEnd s.toList

namespace Lexeme

def text? : Lexeme → Option String
  | .text s => some s
  | .output _ _ _ | .openBlock _ _ _ | .openCall _ _ | .call _ _ | .otherwise _ | .close _ _ => none

def Lexed : Lexeme → Prop
  | .text s => s ≠ ""
  | .output content false _ => ∀ pos, Lexer.tag pos content.toList = .ok (.output content false pos)
  | .openCall content _ | .call content _ => content.toList.IsChain Unclosing
  | .output _ true _ | .openBlock _ _ _ | .otherwise _ | .close _ _ => True

end Lexeme

structure Cut (done : List Lexeme) : Prop where
  lexed : ∀ x ∈ done, x.Lexed
  chain : (done.reverse.map Lexeme.text?).IsChain Follows
  last : ∀ x ∈ done.head?, x.text? = none

namespace Lexer

theorem block_lexed {content : List Char} {pos : Position} {x : Lexeme}
    (hcontent : content.IsChain Unclosing) (h : block pos content = .ok x) :
    x.Lexed ∧ x.text? = none := by
  unfold block at h
  split at h
  · next call =>
    cases h
    refine ⟨?_, rfl⟩
    rw [Lexeme.Lexed, String.toList_ofList]
    exact List.IsChain.infix hcontent ((Text.isInfix_trimChars call).trans (List.suffix_cons _ _).isInfix)
  · simp only at h
    split at h <;> cases h <;> exact ⟨trivial, rfl⟩

theorem tag_lexed {content : List Char} {pos : Position} {x : Lexeme}
    (hcontent : content.IsChain Unclosing) (h : tag pos content = .ok x) :
    x.Lexed ∧ x.text? = none := by
  unfold tag at h
  split at h
  · cases h
  · next rest =>
    have hrest := (Text.isSuffix_trimLeft rest).trans (List.suffix_cons '#' rest)
    have hchain := List.IsChain.infix hcontent hrest.isInfix
    exact block_lexed hchain h
  · cases h
    exact ⟨trivial, rfl⟩
  · next call =>
    cases h
    refine ⟨?_, rfl⟩
    rw [Lexeme.Lexed, String.toList_ofList]
    exact List.IsChain.infix hcontent ((Text.isInfix_trimChars call).trans (List.suffix_cons _ _).isInfix)
  · next hnil hblock hclose hcall =>
    cases h
    split
    · exact ⟨trivial, rfl⟩
    · next helse =>
      refine ⟨fun p => ?_, rfl⟩
      rw [String.toList_ofList]
      unfold tag
      split
      · exact absurd rfl hnil
      · exact absurd rfl (hblock _)
      · exact absurd rfl (hclose _)
      · exact absurd rfl (hcall _)
      · simp [helse]

theorem flush_cut {l : Lexer} (h : Cut l.done) :
    (∀ x ∈ l.flush, x.Lexed) ∧ (l.flush.reverse.map Lexeme.text?).IsChain Follows := by
  unfold flush
  split
  · exact ⟨h.lexed, h.chain⟩
  · next hliteral =>
    refine ⟨List.forall_mem_cons.mpr ⟨?_, h.lexed⟩, ?_⟩
    · simpa [Lexeme.Lexed] using hliteral
    · rw [List.reverse_cons, List.map_append]
      refine List.isChain_append.mpr ⟨h.chain, .singleton _, fun y hy z hz => ?_⟩
      rw [List.getLast?_map, List.getLast?_reverse] at hy
      obtain ⟨x, hx, rfl⟩ := Option.map_eq_some_iff.mp hy
      intro s hs
      rw [h.last x hx] at hs
      cases hs

theorem emit_cut {l : Lexer} (h : Cut l.done) (hsafe : SafeEnd l.literal.reverse) {x : Lexeme}
    (hx : x.Lexed ∧ x.text? = none) : Cut (l.emit x).done where
  lexed := List.forall_mem_cons.mpr ⟨hx.1, (flush_cut h).1⟩
  chain := by
    rw [emit, List.reverse_cons, List.map_append]
    refine List.isChain_append.mpr ⟨(flush_cut h).2, .singleton _, fun y hy z hz s hs => ?_⟩
    obtain rfl : x.text? = z := by simpa using hz
    refine ⟨hx.2, ?_⟩
    rw [List.getLast?_map, List.getLast?_reverse] at hy
    obtain ⟨w, hw, rfl⟩ := Option.map_eq_some_iff.mp hy
    unfold flush at hw
    split at hw
    · rw [h.last w hw] at hs
      cases hs
    · cases hw
      cases hs
      rwa [String.toList_ofList]
  last := by simpa [emit] using hx.2

end Lexer

def Mode.Cut (literal : List Char) : Mode → Prop
  | .escape | .escapeBrace => True
  | .inside .tag _ rev => SafeEnd literal.reverse ∧ rev.IsChain Unclosing
  | .text | .brace _ | .opened _ | .bang _ | .bangDash _ | .inside _ _ _ => SafeEnd literal.reverse

namespace Lexer

structure Cut (l : Lexer) : Prop where
  done : Template.Cut l.done
  mode : l.mode.Cut l.literal

theorem leave_cut {l l' : Lexer} {what : Enclosed} {start : Position} {content : List Char}
    (hdone : Template.Cut l.done) (hsafe : SafeEnd l.literal.reverse)
    (hcontent : what = .tag → content.IsChain Unclosing)
    (h : l.leave what start content = .ok l') : l'.Cut := by
  cases what with
  | comment => cases h; exact ⟨hdone, hsafe⟩
  | longComment => cases h; exact ⟨hdone, hsafe⟩
  | raw => cases h; exact ⟨emit_cut hdone hsafe ⟨trivial, rfl⟩, .nil⟩
  | tag =>
    rw [leave] at h
    split at h
    · next x htag =>
      cases h
      have hcontent := List.IsChain.infix (hcontent rfl) (Text.isInfix_trimChars content)
      exact ⟨emit_cut hdone hsafe (tag_lexed hcontent htag), .nil⟩
    · cases h

theorem inside_cut {l l' : Lexer} {what : Enclosed} {start : Position} {rev : List Char} {c : Char}
    (hdone : Template.Cut l.done) (hsafe : SafeEnd l.literal.reverse)
    (h : l.inside what start rev c = .ok l') (hrev : what = .tag → rev.IsChain Unclosing) :
    l'.Cut := by
  rw [inside] at h
  split at h
  · refine leave_cut hdone hsafe (fun hwhat => ?_) h
    subst hwhat
    have hrest := List.IsChain.infix (hrev rfl) (List.drop_suffix 1 rev).isInfix
    exact List.isChain_reverse.mpr (hrest.imp fun _ _ hcd hdc => hcd hdc.symm)
  · next hmark =>
    cases h
    refine ⟨hdone, ?_⟩
    cases what with
    | comment | longComment | raw => exact hsafe
    | tag =>
      -- Two closing braces would have ended the tag.
      refine ⟨hsafe, List.isChain_cons.mpr ⟨fun d hd hcd => hmark ?_, hrev rfl⟩⟩
      obtain ⟨rest, rfl⟩ := List.head?_eq_some_iff.mp hd
      simp [Enclosed.mark, hcd]

theorem inText_cut {l : Lexer} (hdone : Template.Cut l.done) {c : Char}
    (hsafe : c = '{' → SafeEnd l.literal.reverse) : (l.inText c).Cut := by
  unfold inText
  split
  · exact ⟨hdone, trivial⟩
  · next hslash =>
    split
    · next hbrace => exact ⟨hdone, hsafe hbrace⟩
    · next hbrace => exact ⟨hdone, by simpa [put, Mode.Cut] using SafeEnd.concat hslash hbrace⟩

theorem put_inText_cut {l : Lexer} (hdone : Template.Cut l.done) (cs : List Char) {c : Char}
    (hc : c ≠ '{') : ((l.put cs).inText c).Cut := by
  apply inText_cut
  · exact hdone
  · exact fun hbrace => absurd hbrace hc

theorem read_cut {l l' : Lexer} (h : l.Cut) {c : Char} (hl : l.read c = .ok l') : l'.Cut := by
  obtain ⟨pos, literal, done, mode⟩ := l
  obtain ⟨hdone, hmode⟩ := h
  cases mode with
  | text =>
    cases hl
    exact inText_cut hdone fun _ => hmode
  | escape =>
    cases hl
    split
    · exact ⟨hdone, trivial⟩
    · next hc => exact put_inText_cut hdone _ hc
  | escapeBrace =>
    cases hl
    split
    · exact ⟨hdone, by simpa [put, Mode.Cut, literalBraces] using SafeEnd.braces literal.reverse⟩
    · next hc => exact put_inText_cut hdone _ hc
  | brace start =>
    cases hl
    split
    · exact ⟨hdone, hmode⟩
    · next hc => exact put_inText_cut hdone _ hc
  | opened start =>
    simp only [read] at hl
    split at hl
    · cases hl
      exact ⟨hdone, hmode⟩
    · split at hl
      · cases hl
        exact ⟨hdone, hmode⟩
      · exact inside_cut hdone hmode hl fun _ => .nil
  | bang start =>
    simp only [read] at hl
    split at hl
    · cases hl
      exact ⟨hdone, hmode⟩
    · exact inside_cut hdone hmode hl nofun
  | bangDash start =>
    simp only [read] at hl
    split at hl
    · cases hl
      exact ⟨hdone, hmode⟩
    · exact inside_cut hdone hmode hl nofun
  | inside what start rev =>
    cases what with
    | comment | longComment | raw => exact inside_cut hdone hmode hl nofun
    | tag => exact inside_cut hdone hmode.1 hl fun _ => hmode.2

theorem step_cut {l l' : Lexer} (h : l.Cut) {c : Char} (hl : l.step c = .ok l') : l'.Cut := by
  obtain ⟨m, hm, hl⟩ := exists_of_bind_eq_ok hl
  cases hl
  exact ⟨(read_cut h hm).done, (read_cut h hm).mode⟩

theorem finish_cut {l : Lexer} (h : l.Cut) {ls : List Lexeme} (hl : l.finish = .ok ls) :
    (∀ x ∈ ls, x.Lexed) ∧ (ls.map Lexeme.text?).IsChain Follows := by
  have hflush (cs : List Char) : (∀ x ∈ (l.put cs).flush.reverse, x.Lexed) ∧
      ((l.put cs).flush.reverse.map Lexeme.text?).IsChain Follows := by
    obtain ⟨hlexed, hchain⟩ := flush_cut (l := l.put cs) h.done
    exact ⟨fun x hx => hlexed x (List.mem_reverse.mp hx), hchain⟩
  unfold finish at hl
  split at hl <;> cases hl
  · exact hflush []
  · exact hflush ['\\']
  · exact hflush ['\\', '{']
  · exact hflush ['{']

end Lexer

theorem lexemes_cut {firstLine : Nat} {cs : List Char} {ls : List Lexeme}
    (h : lexemes firstLine cs = .ok ls) :
    (∀ x ∈ ls, x.Lexed) ∧ (ls.map Lexeme.text?).IsChain Follows := by
  obtain ⟨l, hl, h⟩ := exists_of_bind_eq_ok h
  have hstart : Lexer.Cut { pos := ⟨firstLine, 1⟩ } := ⟨⟨nofun, .nil, nofun⟩, .nil⟩
  exact Lexer.finish_cut (of_foldlM_eq_ok (fun _ _ _ _ hl => Lexer.step_cut hl) hstart hl) h

end Template

end StaticSite
