import StaticSite.Json.Text
import StaticSite.Proofs.Template.Words
import StaticSite.Template.Parse

namespace StaticSite

namespace Number

@[simp] theorem natOf_toDigits (n : Nat) : natOf (Nat.toDigits 10 n) = n := by
  rw [natOf]
  simpa [Nat.ofDigitChars, Nat.mul_comm] using Nat.ofDigitChars_ten_toDigits (n := n)

theorem isDigit_of_mem_toDigits {n : Nat} {c : Char} (h : c ∈ Nat.toDigits 10 n) : c.isDigit :=
  Nat.isDigit_of_mem_toDigits (by omega) (by omega) h

@[simp] theorem digits?_toDigits (n : Nat) : digits? (Nat.toDigits 10 n) = some n := by
  rw [digits?, natOf_toDigits, if_neg]
  simpa using fun c => isDigit_of_mem_toDigits

theorem sign_of_forall {cs : List Char} (h : ∀ c ∈ cs, c.isDigit) : sign cs = (false, cs) := by
  unfold sign
  split
  · exact absurd (h '-' (by simp)) (by decide)
  · exact absurd (h '+' (by simp)) (by decide)
  · rfl

theorem integer?_repr (n : Int) : integer? n.repr.toList = some n := by
  cases n with
  | ofNat m =>
    have hsign := sign_of_forall fun c (hc : c ∈ Nat.toDigits 10 m) => isDigit_of_mem_toDigits hc
    simp [Int.repr, integer?, hsign]
  | negSucc m => simp [Int.repr, integer?, sign, Int.negSucc_eq]

theorem mem_repr {n : Int} {c : Char} (h : c ∈ n.repr.toList) : c = '-' ∨ c.isDigit := by
  cases n with
  | ofNat m => exact .inr (isDigit_of_mem_toDigits (by simpa [Int.repr] using h))
  | negSucc m =>
    simp only [Int.repr, String.toList_append, Nat.toList_repr, List.mem_append] at h
    exact h.imp (by simp) isDigit_of_mem_toDigits

end Number

namespace Text

theorem mem_piecesFrom (sep : Char) {c : Char} {piece cs : List Char} (h : c ∈ piece ∨ c ∈ cs) :
    c = sep ∨ ∃ p ∈ piecesFrom sep piece cs, c ∈ p := by
  induction cs generalizing piece with
  | nil => exact .inr ⟨piece.reverse, by simp [piecesFrom], by simpa using h⟩
  | cons d cs ih =>
    rw [piecesFrom]
    split
    · next hd =>
      obtain hpiece | hcs := h
      · exact .inr ⟨piece.reverse, by simp, by simpa using hpiece⟩
      · obtain rfl | hcs := List.mem_cons.mp hcs
        · exact .inl hd
        · exact (ih (.inr hcs)).imp id fun ⟨p, hp, hc⟩ => ⟨p, List.mem_cons_of_mem _ hp, hc⟩
    · exact ih (by simpa [or_assoc, or_left_comm] using h)

end Text

namespace Template

theorem plain_of_isFragmentName {name : String} (h : isFragmentName name) : Plain name.toList := by
  unfold isFragmentName at h
  split at h
  · cases h
  · next c cs hname =>
    rw [hname]
    simp only [Bool.and_eq_true, List.all_eq_true, Bool.or_eq_true, decide_eq_true_eq] at h
    refine ⟨by simp, fun d hd => ?_⟩
    obtain rfl | hd := List.mem_cons.mp hd
    · exact isPlain_iff.mpr (.inl h.1)
    · have hd := h.2 d hd
      rw [isPlain_iff]
      tauto

theorem plain_keyword (keyword : Keyword) : Plain keyword.text.toList := by
  cases keyword <;> decide

theorem eq_of_segments? {root : Root} {text : String} {path : List Char} {r : Reference}
    (h : segments? root text path = some r) :
    r.text = text ∧ path ≠ [] ∧ ∀ c ∈ path, isPlain c := by
  simp only [segments?, Option.ite_none_right_eq_some, List.all_eq_true] at h
  obtain ⟨hsegments, h⟩ := h
  cases h
  refine ⟨rfl, ?_, fun c hc => ?_⟩
  · rintro rfl
    exact absurd (hsegments [] (by simp [Text.pieces, Text.piecesFrom])) (by decide)
  · obtain rfl | ⟨p, hp, hcp⟩ := Text.mem_piecesFrom '.' (.inr hc : c ∈ [] ∨ c ∈ path)
    · decide
    · have hp := hsegments p hp
      simp only [isSegment, Bool.and_eq_true, List.all_eq_true, Bool.or_eq_true,
        decide_eq_true_eq] at hp
      have hc := hp.2 c hcp
      rw [isPlain_iff]
      tauto

theorem reference_eq_ok {text : String} {r : Reference} (h : reference text = .ok r) :
    r.text = text ∧ Plain text.toList := by
  unfold reference at h
  split at h
  · next s hs =>
    cases h
    unfold reference? at hs
    split at hs
    iterate 5
      · cases hs
        exact ⟨rfl, by decide⟩
    · split at hs
      · next htext =>
        obtain ⟨hr, -, hpath⟩ := eq_of_segments? hs
        have hthis : Plain ['t', 'h', 'i', 's', '.'] := by decide
        rw [htext]
        exact ⟨hr, by simp, List.forall_mem_append.mpr ⟨hthis.isPlain, hpath⟩⟩
      · obtain ⟨hr, hne, hpath⟩ := eq_of_segments? hs
        exact ⟨hr, hne, hpath⟩
  · cases h

end Template

namespace Argument

def chars : Argument → List Char
  | .reference r => r.text.toList
  | .literal (.string s) => Template.quoted s
  | .literal v => Json.chars v

def Exact : Argument → Prop
  | .literal (.number (.float _)) => False
  | _ => True

structure Written (a : Argument) : Prop where
  word : Template.Word a.chars
  argument_eq : Template.argument (String.ofList a.chars) = .ok a

end Argument

namespace Template

theorem plain_repr (n : Int) : Plain n.repr.toList where
  ne_nil := by cases n <;> simp [Int.repr, Nat.toDigits_ne_nil]
  isPlain c hc := by
    obtain rfl | hc := Number.mem_repr hc
    · decide
    · exact isPlain_iff.mpr (.inl (by simp [Char.isAlphanum, hc]))

theorem unquote?_plain {cs : List Char} (h : Plain cs) : unquote? cs = none := by
  cases cs with
  | nil => rfl
  | cons c cs => simp [unquote?, isQuote_of_isPlain (h.isPlain c (by simp))]

theorem literal?_int {n : Int} (hn : -0x8000000000000000 ≤ n ∧ n < 0x8000000000000000)
    (hexact : Number.IsExact n) : literal? n.repr = some (.number (.int n hexact)) := by
  have hne (s : String) {c : Char} (hc : c ∈ s.toList) (hdigit : ¬ (c = '-' ∨ c.isDigit)) :
      n.repr ≠ s := by
    rintro rfl
    exact hdigit (Number.mem_repr hc)
  unfold literal?
  rw [unquote?_plain (plain_repr n)]
  simp only
  split
  · next h => exact absurd h (hne "true" (c := 't') (by decide) (by decide))
  · next h => exact absurd h (hne "false" (c := 'f') (by decide) (by decide))
  · next h => exact absurd h (hne "null" (c := 'n') (by decide) (by decide))
  · have hof : Number.ofInt? n = some (.int n hexact) := dif_pos hexact
    simp [Number.ofLiteral?, Number.integer?_repr, hn, hof]

theorem ofLiteral?_eq_some {cs : List Char} {x : Number} (h : Number.ofLiteral? cs = some x) :
    (∃ y, x = .float y) ∨
      ∃ n hexact, x = .int n hexact ∧ -0x8000000000000000 ≤ n ∧ n < 0x8000000000000000 := by
  have hfloat (h : Number.ofLiteral?.float? cs = some x) : ∃ y, x = .float y := by
    unfold Number.ofLiteral?.float? at h
    split at h
    · cases h
      exact ⟨_, rfl⟩
    · cases h
  unfold Number.ofLiteral? at h
  split at h
  · next n _ =>
    split at h
    · next hn =>
      rw [Number.ofInt?, dif_pos (by omega)] at h
      cases h
      exact .inr ⟨n, _, rfl, hn⟩
    · exact .inl (hfloat h)
  · exact .inl (hfloat h)

theorem written_of_literal {value : String} {v : Value} (h : literal? value = some v)
    (hexact : (Argument.literal v).Exact) : (Argument.literal v).Written := by
  unfold literal? at h
  split at h
  · cases h
    exact ⟨word_quoted _, by simp [Argument.chars, argument, literal?, unquote?_quoted]⟩
  · split at h
    iterate 3
      · cases h
        exact ⟨Plain.word (by decide), rfl⟩
    · obtain ⟨x, hx, rfl⟩ := Option.map_eq_some_iff.mp h
      obtain ⟨y, rfl⟩ | ⟨n, hn, rfl, hbits⟩ := ofLiteral?_eq_some hx
      · exact hexact.elim
      · exact ⟨(plain_repr n).word, by
          simp [Argument.chars, Json.chars, Number.text, argument, literal?_int hbits hn]⟩

theorem written_of_argument {value : String} {a : Argument} (h : argument value = .ok a)
    (hexact : a.Exact) : a.Written := by
  have hvalue := h
  unfold argument at h
  split at h
  · next v hv =>
    cases h
    exact written_of_literal hv hexact
  · cases hr : reference value with
    | error e => simp [hr, Except.map] at h
    | ok r =>
      obtain ⟨htext, hplain⟩ := reference_eq_ok hr
      rw [hr] at h
      cases h
      refine ⟨?_, ?_⟩
      · rw [Argument.chars, htext]
        exact hplain.word
      · rw [Argument.chars, htext, String.ofList_toList, hvalue]

structure Key (cs : List Char) : Prop where
  ne_nil : cs ≠ []
  forall_mem : ∀ c ∈ cs, c ≠ '=' ∧ isQuote c = false ∧ Text.isSpace c = false
  isChain : cs.IsChain Unclosing

theorem Key.word_assign {key : List Char} (h : Key key) {value : List Char} (hvalue : Word value) :
    Word (key ++ '=' :: value) := by
  have hspace : Text.isSpace '=' = false := by decide
  have hpasses : Passes (key ++ ['=']) := passes_of_forall (List.forall_mem_append.mpr
    ⟨fun c hc => (h.forall_mem c hc).2, by simp [isQuote, hspace]⟩)
  have hsealed : Sealed (key ++ ['=']) := {
    isChain := by simpa using List.isChain_append.mpr ⟨h.isChain, by simp, by simp⟩
    getLast := by simp [hspace] }
  rw [List.append_cons]
  exact ⟨by simp, hpasses.append hvalue.passes, hsealed.append hvalue.isSealed⟩

theorem assignment?_append {key : List Char} (value : List Char)
    (h : ∀ c ∈ key, c ≠ '=' ∧ isQuote c = false) :
    assignment? (key ++ '=' :: value) = some (key, value) := by
  induction key with
  | nil => rfl
  | cons c key ih =>
    obtain ⟨⟨hc, hquote⟩, hkey⟩ := List.forall_mem_cons.mp h
    simp [assignment?, hc, hquote, ih hkey]

theorem assignment?_eq_some {cs key value : List Char} (h : assignment? cs = some (key, value)) :
    cs = key ++ '=' :: value ∧ ∀ c ∈ key, c ≠ '=' ∧ isQuote c = false := by
  induction cs generalizing key with
  | nil => cases h
  | cons c cs ih =>
    rw [assignment?] at h
    split at h
    · next hc =>
      cases h
      exact ⟨by rw [hc]; rfl, nofun⟩
    · next hc =>
      split at h
      · cases h
      · next hquote =>
        obtain ⟨⟨rest, value⟩, hrest, h⟩ := Option.map_eq_some_iff.mp h
        cases h
        obtain ⟨hcs, hkey⟩ := ih hrest
        exact ⟨by rw [hcs]; rfl, List.forall_mem_cons.mpr ⟨⟨hc, by simpa using hquote⟩, hkey⟩⟩

theorem assignment?_plain {cs : List Char} (h : Plain cs) : assignment? cs = none := by
  cases hcs : assignment? cs with
  | none => rfl
  | some r =>
    obtain ⟨rfl, -⟩ := assignment?_eq_some hcs
    exact absurd (by simp) (h.not_mem (d := '=') rfl)

theorem key_of_assignment? {content : String} {w : String} {key value : List Char}
    (hcontent : content.toList.IsChain Unclosing) (hin : w.toList <:+: content.toList)
    (htight : Tight w.toList) (h : assignment? w.toList = some (key, value)) (hne : key ≠ []) :
    Key key := by
  obtain ⟨hw, hkey⟩ := assignment?_eq_some h
  rw [hw] at hin htight
  have hspace := htight.isSpace_of_mem fun c hc => (hkey c hc).2
  have hchain := List.IsChain.infix hcontent ((List.prefix_append _ _).isInfix.trans hin)
  exact ⟨hne, fun c hc => ⟨(hkey c hc).1, (hkey c hc).2, hspace c hc⟩, hchain⟩

end Template

namespace Call

open Template (Key Word addWord)

def parts (c : Call) : List (List Char) :=
  c.base.toList.map (fun r => r.text.toList) ++ c.args.map fun a => a.1.toList ++ '=' :: a.2.chars

def chars (c : Call) : List Char := c.name.toList ++ Template.spaced c.parts

def Exact (c : Call) : Prop := ∀ a ∈ c.args, a.2.Exact

structure Written (c : Call) : Prop where
  name : isFragmentName c.name
  base : ∀ r ∈ c.base, Template.reference r.text = .ok r
  nodup : (c.args.map Prod.fst).Nodup
  key : ∀ a ∈ c.args, Key a.1.toList
  arg : ∀ a ∈ c.args, a.2.Written

theorem Written.word {c : Call} (h : c.Written) : ∀ w ∈ c.parts, Word w := by
  refine List.forall_mem_append.mpr ⟨List.forall_mem_map.mpr fun r hr => ?_,
    List.forall_mem_map.mpr fun a ha => (h.key a ha).word_assign (h.arg a ha).word⟩
  exact (Template.reference_eq_ok (h.base r (by simpa using hr))).2.word

theorem Written.sealed_chars {c : Call} (h : c.Written) : Template.Sealed c.chars :=
  (Template.plain_of_isFragmentName h.name).word.isSealed.append (Template.sealed_spaced h.word)

theorem addWord_assign {c : Call} {key : String} {value : List Char} {a : Argument}
    (hkey : Key key.toList) (hvalue : Template.argument (String.ofList value) = .ok a)
    (hnew : key ∉ c.args.map Prod.fst) :
    addWord c (String.ofList (key.toList ++ '=' :: value)) =
      .ok { c with args := c.args ++ [(key, a)] } := by
  have hassign := Template.assignment?_append value fun c hc =>
    ⟨(hkey.forall_mem c hc).1, (hkey.forall_mem c hc).2.1⟩
  have hne : key ≠ "" := by
    rintro rfl
    exact hkey.ne_nil rfl
  have hany : (c.args.any fun a => a.1 = key) = false := by
    simp only [List.any_eq_false, decide_eq_true_eq]
    exact fun b hb heq => hnew (heq ▸ List.mem_map_of_mem hb)
  rw [addWord, String.toList_ofList, hassign]
  simp [hne, hany, hvalue, bind, Except.bind, pure, Except.pure]

theorem foldlM_addWord_args {c : Call} {args : List (String × Argument)}
    (hnodup : ((c.args ++ args).map Prod.fst).Nodup) (hkey : ∀ a ∈ args, Key a.1.toList)
    (harg : ∀ a ∈ args, a.2.Written) :
    (args.map fun a => String.ofList (a.1.toList ++ '=' :: a.2.chars)).foldlM addWord c =
      .ok { c with args := c.args ++ args } := by
  induction args generalizing c with
  | nil => simp [pure, Except.pure]
  | cons a args ih =>
    have hnew : a.1 ∉ c.args.map Prod.fst := by
      rw [List.map_append, List.map_cons] at hnodup
      exact fun ha => (List.nodup_append.mp hnodup).2.2 _ ha _ List.mem_cons_self rfl
    obtain ⟨hakey, hkey⟩ := List.forall_mem_cons.mp hkey
    obtain ⟨haarg, harg⟩ := List.forall_mem_cons.mp harg
    rw [List.map_cons, List.foldlM_cons, addWord_assign hakey haarg.argument_eq hnew]
    change List.foldlM addWord { c with args := c.args ++ [a] } _ = _
    rw [ih (by simpa using hnodup) hkey harg]
    simp

theorem addWord_base {name : String} {r : Reference} (h : Template.reference r.text = .ok r) :
    addWord ⟨name, none, []⟩ r.text = .ok ⟨name, some r, []⟩ := by
  rw [addWord, Template.assignment?_plain (Template.reference_eq_ok h).2]
  simp [h, bind, Except.bind, pure, Except.pure]

theorem call_spaced {name : String} (hname : isFragmentName name) {ws : List (List Char)}
    (hws : ∀ w ∈ ws, Word w) :
    Template.call (String.ofList (name.toList ++ Template.spaced ws)) =
      (ws.map String.ofList).foldlM addWord ⟨name, none, []⟩ := by
  rw [Template.call, Template.words_eq (Template.plain_of_isFragmentName hname).word hws]
  simp [hname, bind, Except.bind]

theorem Written.call_eq {c : Call} (h : c.Written) :
    Template.call (String.ofList c.chars) = .ok c := by
  obtain ⟨name, base, args⟩ := c
  have hargs (base : Option Reference) :=
    foldlM_addWord_args (c := ⟨name, base, []⟩) h.nodup h.key h.arg
  rw [chars, call_spaced h.name h.word]
  cases base with
  | none => simpa [parts, Function.comp_def] using hargs none
  | some r =>
    simpa [parts, Function.comp_def, addWord_base (h.base r rfl), bind, Except.bind]
      using hargs (some r)

theorem Written.concat {c : Call} (h : c.Written) {key : String} {a : Argument}
    (hkey : Key key.toList) (hnew : (c.args.any fun b => b.1 = key) = false) (ha : a.Written) :
    Call.Written { c with args := c.args ++ [(key, a)] } where
  name := h.name
  base := h.base
  nodup := by
    simp only [List.any_eq_false, decide_eq_true_eq] at hnew
    simp only [List.map_append, List.map_cons, List.map_nil]
    refine List.nodup_append.mpr ⟨h.nodup, by simp, fun k hk k' hk' => ?_⟩
    obtain ⟨b, hb, rfl⟩ := List.mem_map.mp hk
    rw [List.mem_singleton.mp hk']
    exact hnew b hb
  key := List.forall_mem_append.mpr ⟨h.key, by simpa using hkey⟩
  arg := List.forall_mem_append.mpr ⟨h.arg, by simpa using ha⟩

theorem Written.addWord {c c' : Call} {content w : String} (hc : c.Exact → c.Written)
    (hcontent : content.toList.IsChain Template.Unclosing)
    (hw : w.toList <:+: content.toList ∧ Template.Tight w.toList) (h : addWord c w = .ok c')
    (hexact : c'.Exact) : c'.Written := by
  unfold Template.addWord at h
  split at h
  · next key value hassign =>
    simp only [Bool.or_eq_true, decide_eq_true_eq] at h
    split at h
    · cases h
    · next hnew =>
      rw [not_or, Bool.not_eq_true] at hnew
      obtain ⟨a, ha, h⟩ := exists_of_bind_eq_ok h
      cases h
      obtain ⟨hargs, ha'⟩ := List.forall_mem_append.mp hexact
      have hne : key ≠ [] := by
        rintro rfl
        exact hnew.1 rfl
      have hkey := Template.key_of_assignment? hcontent hw.1 hw.2 hassign hne
      exact (hc hargs).concat (by simpa using hkey) hnew.2
        (Template.written_of_argument ha (ha' _ List.mem_cons_self))
  · split at h
    · next hfirst =>
      obtain ⟨r, hr, h⟩ := exists_of_bind_eq_ok h
      cases h
      have hc := hc hexact
      refine ⟨hc.name, fun r' hr' => ?_, hc.nodup, hc.key, hc.arg⟩
      cases hr'
      rw [(Template.reference_eq_ok hr).1, hr]
    · cases h

theorem written_of_call {c : Call} {content : String}
    (hcontent : content.toList.IsChain Template.Unclosing) (h : Template.call content = .ok c)
    (hexact : c.Exact) : c.Written := by
  obtain ⟨ws, hws, h⟩ := exists_of_bind_eq_ok h
  have hsound := Template.words_sound hws
  cases ws with
  | nil => cases h
  | cons name rest =>
    simp only at h
    split at h
    · next hname =>
      -- Arguments are only added, so that a call without floats had none before.
      have hstart : Call.Written ⟨name, none, []⟩ := ⟨hname, nofun, .nil, nofun, nofun⟩
      refine of_foldlM_eq_ok (P := fun c => c.Exact → c.Written) ?_ (fun _ => hstart) h hexact
      intro w hw _ _ hc hadd
      exact Written.addWord hc hcontent (hsound w (List.mem_cons_of_mem _ hw)) hadd
    · cases h

end Call

def Output.text : Output → String
  | .reference r => r.text
  | .children => "children"
  | .classes => "@classes"
  | .accessible => "@a11y"
  | .attributes => "@attrs"

namespace Template

theorem output_eq_ok {content : String} {what : Output} (h : output content = .ok what) :
    what.text = content ∧ Plain content.toList := by
  unfold output at h
  split at h
  iterate 4
    · cases h
      exact ⟨rfl, by decide⟩
  · cases hr : reference content with
    | error e => simp [hr, Except.map] at h
    | ok r =>
      rw [hr] at h
      cases h
      exact reference_eq_ok hr

theorem reference_of_block {content : String} {r : Reference} (h : blockReference content = .ok r) :
    reference r.text = .ok r := by
  obtain ⟨ws, -, h⟩ := exists_of_bind_eq_ok h
  split at h
  · cases h
  · split at h
    · cases h
    · rw [(reference_eq_ok h).1, h]
  · cases h

theorem blockReference_text {r : Reference} (h : reference r.text = .ok r) :
    blockReference r.text = .ok r := by
  obtain ⟨-, hplain⟩ := reference_eq_ok h
  have heq : '=' ∉ r.text.toList := hplain.not_mem rfl
  simp [blockReference, words_plain hplain, heq, h, bind, Except.bind]

end Template

end StaticSite
