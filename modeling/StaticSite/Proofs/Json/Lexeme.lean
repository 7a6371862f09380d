import Mathlib.Data.List.TakeDrop
import Mathlib.Data.List.TakeWhile
import StaticSite.Json.Lexeme
import StaticSite.Json.Text
import StaticSite.Proofs.Template.Content
import StaticSite.Proofs.Value.Throughout

namespace StaticSite.Json

mutual

def lexemes : Value → List Lexeme
  | .null => [.null]
  | .bool b => [.bool b]
  | .number n => [.number n]
  | .string s => [.string s]
  | .list items => .openList :: (itemLexemes items ++ [.closeList])
  | .map members => .openMap :: (memberLexemes members ++ [.closeMap])

def itemLexemes : List Value → List Lexeme
  | [] => []
  | [v] => lexemes v
  | v :: w :: rest => lexemes v ++ .comma :: itemLexemes (w :: rest)

def memberLexemes : List (String × Value) → List Lexeme
  | [] => []
  | [(k, v)] => .string k :: .colon :: lexemes v
  | (k, v) :: m :: rest => .string k :: .colon :: (lexemes v ++ .comma :: memberLexemes (m :: rest))

end

inductive Reader.Holds : Reader → List Lexeme → Prop
  | idle : Holds ⟨ls, .idle⟩ ls
  | bare : bareLexeme? rev.reverse = some l → Holds ⟨ls, .bare rev⟩ (l :: ls)

def Spells (cs : List Char) (ls : List Lexeme) : Prop :=
  ∀ done, ∃ r, cs.foldlM Reader.step? ⟨done, .idle⟩ = some r ∧ r.Holds (ls.reverse ++ done)

theorem Reader.Holds.step_mark {r : Reader} {ls : List Lexeme} (h : r.Holds ls) {c : Char}
    {m : Lexeme} (hc : mark? c = some m) : r.step? c = some ⟨m :: ls, .idle⟩ := by
  have hstart : ∀ done, Reader.start done c = ⟨m :: done, .idle⟩ := by
    intro done
    have hgap : isGap c = false := by
      rw [← Bool.not_eq_true]
      intro hgap
      simp only [isGap, Bool.or_eq_true, decide_eq_true_eq] at hgap
      obtain ((rfl | rfl) | rfl) | rfl := hgap <;> cases hc
    have hquote : c ≠ '"' := by
      rintro rfl
      cases hc
    simp [Reader.start, hgap, hquote, hc]
  cases h with
  | idle => simp [Reader.step?, hstart]
  | bare hl => simp [Reader.step?, hc, hl, hstart]

theorem Reader.Holds.finish {r : Reader} {ls : List Lexeme} (h : r.Holds ls) :
    r.finish? = some ls.reverse := by
  cases h with
  | idle => rfl
  | bare hl => simp [Reader.finish?, hl]

theorem Spells.lexemes? {cs : List Char} {ls : List Lexeme} (h : Spells cs ls) :
    lexemes? cs = some ls := by
  obtain ⟨r, hr, hholds⟩ := h []
  rw [List.append_nil] at hholds
  rw [Json.lexemes?, hr]
  simpa using hholds.finish

theorem Spells.nil : Spells [] [] := fun done => ⟨⟨done, .idle⟩, rfl, .idle⟩

theorem Spells.mark {cs ds : List Char} {ls ms : List Lexeme} (h : Spells cs ls) {c : Char}
    {m : Lexeme} (hc : mark? c = some m) (h' : Spells ds ms) :
    Spells (cs ++ c :: ds) (ls ++ m :: ms) := by
  intro done
  obtain ⟨r, hr, hholds⟩ := h done
  obtain ⟨r', hr', hholds'⟩ := h' (m :: (ls.reverse ++ done))
  refine ⟨r', ?_, by simpa using hholds'⟩
  rw [List.foldlM_append, hr]
  simp [hholds.step_mark hc, hr']

theorem Spells.enclose {cs : List Char} {ls : List Lexeme} {c d : Char} {m n : Lexeme}
    (hc : mark? c = some m) (h : Spells cs ls) (hd : mark? d = some n) :
    Spells (c :: (cs ++ [d])) (m :: (ls ++ [n])) := Spells.nil.mark hc (h.mark hd .nil)

def isBare (c : Char) : Bool := !(isGap c || c = '"' || (mark? c).isSome)

theorem foldlM_bare {ls : List Lexeme} {cs rev : List Char} (h : ∀ c ∈ cs, isBare c = true) :
    cs.foldlM Reader.step? ⟨ls, .bare rev⟩ = some ⟨ls, .bare (cs.reverse ++ rev)⟩ := by
  induction cs generalizing rev with
  | nil => rfl
  | cons c cs ih =>
    obtain ⟨hc, hcs⟩ := List.forall_mem_cons.mp h
    have hstep : Reader.step? ⟨ls, .bare rev⟩ c = some ⟨ls, .bare (c :: rev)⟩ := by
      rw [isBare, Bool.not_eq_true'] at hc
      simp [Reader.step?, hc]
    have hrest : cs.foldlM Reader.step? ⟨ls, .bare (c :: rev)⟩ =
        some ⟨ls, .bare (cs.reverse ++ c :: rev)⟩ := ih hcs
    rw [List.foldlM_cons, hstep]
    simpa using hrest

theorem spells_bare {cs : List Char} {l : Lexeme} (hne : cs ≠ []) (h : ∀ c ∈ cs, isBare c = true)
    (hl : bareLexeme? cs = some l) : Spells cs [l] := by
  obtain ⟨c, cs, rfl⟩ := List.exists_cons_of_ne_nil hne
  obtain ⟨hc, hcs⟩ := List.forall_mem_cons.mp h
  intro done
  have hstart : Reader.start done c = ⟨done, .bare [c]⟩ := by
    simp only [isBare, Bool.not_eq_true', Bool.or_eq_false_iff, decide_eq_false_iff_not,
      Option.isSome_eq_false_iff, Option.isNone_iff_eq_none] at hc
    simp [Reader.start, hc]
  refine ⟨⟨done, .bare (cs.reverse ++ [c])⟩, ?_, .bare (by simpa using hl)⟩
  rw [List.foldlM_cons, Reader.step?, hstart]
  exact foldlM_bare hcs

theorem isBare_of_isDigit {c : Char} (h : c.isDigit) : isBare c = true := by
  have hne : ∀ d : Char, d.isDigit = false → c ≠ d := by
    rintro d hd rfl
    rw [h] at hd
    cases hd
  simp [isBare, isGap, mark?, hne]

theorem eq_zero_of_head?_toDigits {n : Nat} (h : (Nat.toDigits 10 n).head? = some '0') : n = 0 := by
  induction n using Nat.strongRecOn with
  | ind n ih =>
    by_cases hn : n < 10
    · have hall : ∀ m < 10, (Nat.toDigits 10 m).head? = some '0' → m = 0 := by decide
      exact hall n hn h
    · rw [Nat.toDigits_of_base_le (by omega) (by omega),
        List.head?_append_of_ne_nil _ Nat.toDigits_ne_nil] at h
      have := ih (n / 10) (by omega) h
      omega

theorem digits_toDigits (n : Nat) : digits (Nat.toDigits 10 n) = (Nat.toDigits 10 n, []) := by
  have hall : ∀ c ∈ Nat.toDigits 10 n, c.isDigit = true := fun c => Number.isDigit_of_mem_toDigits
  rw [digits, List.span_eq_takeWhile_dropWhile, List.takeWhile_eq_self_iff.mpr hall,
    List.dropWhile_eq_nil_iff.mpr hall]

theorem ofChars?_toDigits (negative : Bool) (n : Nat) :
    Literal.ofChars? ((if negative then ['-'] else []) ++ Nat.toDigits 10 n) =
      some { negative, whole := Nat.toDigits 10 n, places := none, exponent := none } := by
  have hne : Nat.toDigits 10 n ≠ [] := Nat.toDigits_ne_nil
  have hzero : (Nat.toDigits 10 n).head? = some '0' → (Nat.toDigits 10 n).length ≤ 1 := by
    intro hhead
    obtain rfl := eq_zero_of_head?_toDigits hhead
    decide
  have hminus : '-' ∉ Nat.toDigits 10 n := fun hmem =>
    absurd (Number.isDigit_of_mem_toDigits hmem) (by decide)
  have hdigits := digits_toDigits n
  generalize Nat.toDigits 10 n = ds at hne hzero hminus hdigits
  cases negative with
  | true => simpa [Literal.ofChars?, hdigits, exponent?] using ⟨hne, hzero⟩
  | false =>
    rw [if_neg Bool.false_ne_true, List.nil_append, Literal.ofChars?]
    · simpa [hdigits, exponent?] using ⟨hne, hzero⟩
    · rintro rest rfl
      simp at hminus

theorem number?_whole {negative : Bool} {whole : List Char} {n : Int} (hn : Number.IsExact n)
    (heq : (if negative then -(Number.natOf whole : Int) else Number.natOf whole) = n)
    (hzero : ¬(negative = true ∧ Number.natOf whole = 0)) :
    Literal.number? { negative, whole, places := none, exponent := none } = some (.int n hn) := by
  subst heq
  exact dif_pos ⟨rfl, rfl, hn, hzero⟩

theorem bareLexeme?_int {n : Int} (hn : Number.IsExact n) :
    bareLexeme? n.repr.toList = some (.number (.int n hn)) := by
  have hword : ∀ c cs, c ≠ '-' → c.isDigit = false → n.repr.toList ≠ c :: cs := by
    intro c cs hminus hdigit heq
    obtain h | h := Number.mem_repr (heq ▸ List.mem_cons_self : c ∈ n.repr.toList)
    · exact hminus h
    · rw [hdigit] at h
      cases h
  have hliteral : (Literal.ofChars? n.repr.toList).bind Literal.number? = some (.int n hn) := by
    cases n with
    | ofNat m =>
      have hchars : (Int.ofNat m).repr.toList =
          (if false then ['-'] else []) ++ Nat.toDigits 10 m := by simp [Int.repr]
      rw [hchars, ofChars?_toDigits, Option.bind_some]
      exact number?_whole hn (by simp) (by simp)
    | negSucc m =>
      have hchars : (Int.negSucc m).repr.toList =
          (if true then ['-'] else []) ++ Nat.toDigits 10 (m + 1) := by simp [Int.repr]
      rw [hchars, ofChars?_toDigits, Option.bind_some]
      exact number?_whole hn (by simp [Int.negSucc_eq]) (by simp)
  rw [bareLexeme?, if_neg (hword _ _ (by decide) (by decide)),
    if_neg (hword _ _ (by decide) (by decide)), if_neg (hword _ _ (by decide) (by decide)), hliteral]
  rfl

theorem spells_int {n : Int} (hn : Number.IsExact n) :
    Spells n.repr.toList [.number (.int n hn)] := by
  refine spells_bare ?_ (fun c hc => ?_) (bareLexeme?_int hn)
  · cases n with
    | ofNat m => simp [Int.repr]
    | negSucc m => simp [Int.repr]
  · obtain rfl | hdigit := Number.mem_repr hc
    · decide
    · exact isBare_of_isDigit hdigit

theorem hexValue?_hexDigit : ∀ n < 16, Text.hexValue? (hexDigit n) = some n := by decide

theorem foldlM_escapeChar (done : List Lexeme) (rev : List Char) (c : Char) :
    (escapeChar c).foldlM Reader.step? ⟨done, .text rev none⟩ =
      some ⟨done, .text (c :: rev) none⟩ := by
  have hshort : ∀ {d : Char}, d ≠ 'u' → shortEscape? d = some c →
      ['\\', d].foldlM Reader.step? ⟨done, .text rev none⟩ =
        some ⟨done, .text (c :: rev) none⟩ := by
    intro d hd hc
    simp [Reader.step?, hd, hc]
  unfold escapeChar
  split
  · next hc => exact hshort (by decide) (by rw [hc]; decide)
  split
  · next hc => exact hshort (by decide) (by rw [hc]; decide)
  split
  · next hc => exact hshort (by decide) (by rw [hc]; decide)
  split
  · next hc => exact hshort (by decide) (by rw [hc]; decide)
  split
  · next hc => exact hshort (by decide) (by rw [hc]; decide)
  split
  · next hc => exact hshort (by decide) (by rw [hc]; decide)
  split
  · next hc => exact hshort (by decide) (by rw [hc]; decide)
  split
  · next hlow =>
    have hzero : Text.hexValue? '0' = some 0 := by decide
    have hhigh := hexValue?_hexDigit (c.toNat / 16) (by omega)
    have hrest := hexValue?_hexDigit (c.toNat % 16) (by omega)
    have hcode : c.toNat / 16 * 16 + c.toNat % 16 = c.toNat := Nat.div_add_mod' _ _
    have hunit : endUnit? rev none c.toNat = some (.text (c :: rev) none) := by
      rw [endUnit?, if_neg (by omega), if_neg (by omega), Char.ofNat_toNat]
    simp [Reader.step?, hzero, hhigh, hrest, hcode, hunit]
  · next hquote hslash _ _ _ _ _ hhigh => simp [Reader.step?, hquote, hslash, hhigh]

theorem foldlM_flatMap_escapeChar (done : List Lexeme) (rev cs : List Char) :
    (cs.flatMap escapeChar).foldlM Reader.step? ⟨done, .text rev none⟩ =
      some ⟨done, .text (cs.reverse ++ rev) none⟩ := by
  induction cs generalizing rev with
  | nil => rfl
  | cons c cs ih =>
    rw [List.flatMap_cons, List.foldlM_append, foldlM_escapeChar]
    simpa using ih (c :: rev)

theorem spells_quoted (s : String) : Spells (quoted s) [.string s] := by
  intro done
  refine ⟨⟨.string s :: done, .idle⟩, ?_, .idle⟩
  have hopen : Reader.start done '"' = ⟨done, .text [] none⟩ := by
    simp [Reader.start, isGap]
  rw [quoted, List.foldlM_cons, Reader.step?, hopen]
  change List.foldlM _ _ _ = _
  rw [List.foldlM_append, foldlM_flatMap_escapeChar]
  simp [Reader.step?]

mutual

theorem spells_chars : (v : Value) → v.Throughout Value.Whole → Spells (chars v) (lexemes v)
  | .null, _ => spells_bare (by decide) (List.all_eq_true.mp (by decide)) rfl
  | .bool true, _ => spells_bare (by decide) (List.all_eq_true.mp (by decide)) rfl
  | .bool false, _ => spells_bare (by decide) (List.all_eq_true.mp (by decide)) rfl
  | .number (.int n hn), _ => spells_int hn
  | .number (.float _), h => h.elim
  | .string s, _ => spells_quoted s
  | .list items, h => Spells.enclose rfl (spells_itemChars items h.2) rfl
  | .map members, h => Spells.enclose rfl (spells_memberChars members h.2) rfl

theorem spells_itemChars : (items : List Value) → Value.ThroughoutItems Value.Whole items →
    Spells (itemChars items) (itemLexemes items)
  | [], _ => .nil
  | [v], h => spells_chars v h.1
  | v :: w :: rest, h => (spells_chars v h.1).mark rfl (spells_itemChars (w :: rest) h.2)

theorem spells_memberChars : (members : List (String × Value)) →
    Value.ThroughoutMembers Value.Whole members →
    Spells (memberChars members) (memberLexemes members)
  | [], _ => .nil
  | [(k, v)], h => (spells_quoted k).mark rfl (spells_chars v h.1)
  | (k, v) :: m :: rest, h =>
    (spells_quoted k).mark rfl
      ((spells_chars v h.1).mark rfl (spells_memberChars (m :: rest) h.2))

end

end StaticSite.Json
