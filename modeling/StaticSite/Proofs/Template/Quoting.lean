import StaticSite.Proofs.Template.Spelling

namespace StaticSite.Template

def escapeBraces : List Char → List Char
  | '{' :: '{' :: cs => '\\' :: '{' :: '{' :: escapeBraces cs
  | c :: cs => c :: escapeBraces cs
  | [] => []

namespace Lexer

theorem reads_escapeBraces {l : Lexer} {before : List Char} (h : l.text? = some before)
    (cs : List Char) (hstart : (l.mode = .text ∨ l.mode = .escape) ∨ cs.head? ≠ some '{') :
    ∃ l', Reads l (escapeBraces cs) cs l' := by
  fun_induction escapeBraces cs generalizing l before with
  | case1 cs ih =>
    obtain ⟨m, hm, hmode⟩ := reads_escape h
    obtain ⟨l', hl'⟩ := ih (hm.text_eq before h) (.inl (.inl hmode))
    exact ⟨l', hm.append hl'⟩
  | case2 c cs hsingle ih =>
    by_cases hc : c = '{'
    · -- The brace waits for the next character, which is another one.
      subst hc
      have hmode := hstart.elim id fun hne => absurd rfl hne
      obtain ⟨m, hm, -⟩ := reads_brace h hmode
      have hnext : cs.head? ≠ some '{' := by
        intro hhead
        obtain ⟨ds, rfl⟩ := List.head?_eq_some_iff.mp hhead
        exact hsingle ds rfl rfl
      obtain ⟨l', hl'⟩ := ih (hm.text_eq before h) (.inr hnext)
      exact ⟨l', hm.append hl'⟩
    · obtain ⟨m, hm, hmode⟩ := reads_other h hc
      have hready : m.mode = .text ∨ m.mode = .escape := by
        rw [hmode]
        split
        · exact .inr rfl
        · exact .inl rfl
      obtain ⟨l', hl'⟩ := ih (hm.text_eq before h) (.inl hready)
      exact ⟨l', hm.append hl'⟩
  | case3 => exact ⟨l, .nil l⟩

end Lexer

theorem lexemes_escapeBraces (line : Nat) {s : String} (hs : s ≠ "") :
    lexemes line (escapeBraces s.toList) = .ok [.text s] := by
  have htext : Lexer.text? { pos := ⟨line, 1⟩ } = some [] := rfl
  obtain ⟨l, hl⟩ := Lexer.reads_escapeBraces htext s.toList (.inl (.inl rfl))
  have hfinish := Lexer.finish_of_text (hl.text_eq [] htext) (by simpa using hs)
  rw [lexemes, hl.run]
  change l.finish = _
  rw [hfinish, hl.done_eq, List.nil_append, String.ofList_toList]
  rfl

theorem key_of_forall {key : List Char} (hne : key ≠ [])
    (hmem : ∀ c ∈ key, Text.isSpace c = false ∧ c ≠ '=' ∧ isQuote c = false)
    (hclose : ¬ ['}', '}'] <:+: key) : Key key where
  ne_nil := hne
  forall_mem c hc := ⟨(hmem c hc).2.1, (hmem c hc).2.2, (hmem c hc).1⟩
  isChain := by
    refine List.isChain_iff_forall_rel_of_append_cons_cons.mpr fun {c d before after} hkey hcd => ?_
    obtain ⟨rfl, rfl⟩ := hcd
    exact hclose ⟨before, after, by simpa using hkey.symm⟩

variable {name key : String} {q : Char}

theorem argument_enquoted (hq : isQuote q) (s : String) :
    argument (String.ofList (enquoted q s)) = .ok (.literal (.string s)) := by
  simp [argument, literal?, unquote?_enquoted hq]

def callChars (name key : String) (q : Char) (s : String) : List Char :=
  name.toList ++ spaced [key.toList ++ '=' :: enquoted q s]

theorem call_callChars (hname : isFragmentName name) (hkey : Key key.toList) (hq : isQuote q)
    (s : String) :
    call (String.ofList (callChars name key q s)) =
      .ok ⟨name, none, [(key, .literal (.string s))]⟩ := by
  have hword := hkey.word_assign (word_enquoted hq s)
  have hadd := Call.addWord_assign (c := ⟨name, none, []⟩) hkey (argument_enquoted hq s) nofun
  rw [callChars, Call.call_spaced hname (by simpa using hword), List.map_singleton,
    List.foldlM_cons, hadd]
  rfl

theorem sealed_callChars (hname : isFragmentName name) (hkey : Key key.toList) (hq : isQuote q)
    (s : String) : Sealed (callChars name key q s) :=
  (plain_of_isFragmentName hname).word.isSealed.append
    (sealed_spaced (by simpa using hkey.word_assign (word_enquoted hq s)))

theorem lexemes_callChars (line : Nat) (hname : isFragmentName name) (hkey : Key key.toList)
    (hq : isQuote q) (s : String) :
    lexemes line (braced ('>' :: ' ' :: callChars name key q s)) =
      .ok [.call (String.ofList (callChars name key q s)) ⟨line, 1⟩] := by
  have hsealed := sealed_callChars hname hkey hq s
  have hplain := plain_of_isFragmentName hname
  have hne : callChars name key q s ≠ [] := by simp [callChars]
  have htag : Lexer.tag ⟨line, 1⟩ ('>' :: ' ' :: callChars name key q s) =
      .ok (.call (String.ofList (callChars name key q s)) ⟨line, 1⟩) := by
    rw [Lexer.tag, hsealed.trimChars_space (isSpace_head_append hplain _)]
  obtain ⟨l, hl⟩ := Lexer.emits_content (l := { pos := ⟨line, 1⟩ }) rfl (hsealed.marked hne)
    (by decide) htag
  rw [lexemes, hl.run]
  change l.finish = _
  rw [Lexer.finish, hl.mode_eq]
  simp only [Lexer.flush_of_nil hl.literal_eq, hl.done_eq]
  rfl

theorem nodesOf_callChars (pos : Position) (hname : isFragmentName name) (hkey : Key key.toList)
    (hq : isQuote q) (s : String) :
    nodesOf [.call (String.ofList (callChars name key q s)) pos] =
      .ok [.invoke ⟨name, none, [(key, .literal (.string s))]⟩ none pos] := by
  rw [nodesOf, List.foldlM_cons, Builder.step, Builder.read, call_callChars hname hkey hq s]
  rfl

/-- Any text can be said: as text, a backslash stands before each two braces; as an argument, between
quotes, a backslash stands before each character. -/
theorem parse_quoted (source : String) (line : Nat) :
    (∀ s : String, s ≠ "" →
      parse (String.ofList (escapeBraces s.toList)) source line = .ok ⟨source, [.text s]⟩) ∧
    ∀ (s name key : String) (q : Char), isFragmentName name → key ≠ "" →
      (∀ c ∈ key.toList, Text.isSpace c = false ∧ c ≠ '=' ∧ isQuote c = false) →
      ¬ ['}', '}'] <:+: key.toList → isQuote q →
      parse ("\x7b\x7b> " ++ name ++ " " ++ key ++ "=" ++ String.ofList (enquoted q s) ++
          "\x7d\x7d") source line =
        .ok ⟨source, [.invoke ⟨name, none, [(key, .literal (.string s))]⟩ none ⟨line, 1⟩]⟩ := by
  refine ⟨fun s hs => ?_, fun s name key q hname hne hmem hclose hq => ?_⟩
  · exact parse_eq_ok_iff.mpr
      ⟨_, by rw [String.toList_ofList, lexemes_escapeBraces line hs], rfl, rfl⟩
  · have hkey := key_of_forall (by simpa using hne) hmem hclose
    have htext : ("\x7b\x7b> " ++ name ++ " " ++ key ++ "=" ++ String.ofList (enquoted q s) ++
        "\x7d\x7d").toList = braced ('>' :: ' ' :: callChars name key q s) := by
      simp [braced, callChars]
    exact parse_eq_ok_iff.mpr ⟨_, htext ▸ lexemes_callChars line hname hkey hq s,
      nodesOf_callChars _ hname hkey hq s, rfl⟩

theorem parse_quoted_crowded :
    parse "\\\x7b\x7b\x7b\\\\\x7b\x7b" "a" 1 = .ok ⟨"a", [.text "\x7b\x7b\x7b\\\x7b\x7b"]⟩ ∧
    parse "\x7b\x7b> card \x7dk='\\'\\\\\\\x7d\\\x7d\\ '\x7d\x7d" "a" 3 =
      .ok ⟨"a", [.invoke ⟨"card", none, [("\x7dk", .literal (.string "'\\\x7d\x7d "))]⟩ none ⟨3, 1⟩]⟩ := by
  have hkey : ∀ c ∈ ['}', 'k'], Text.isSpace c = false ∧ c ≠ '=' ∧ isQuote c = false :=
    List.forall_mem_cons.mpr ⟨by decide, List.forall_mem_singleton.mpr (by decide)⟩
  exact ⟨(parse_quoted "a" 1).1 "\x7b\x7b\x7b\\\x7b\x7b" (by decide),
    (parse_quoted "a" 3).2 "'\\\x7d\x7d " "card" "\x7dk" '\x27' (by decide) (by decide) hkey
      (by decide) (by decide)⟩

end StaticSite.Template
