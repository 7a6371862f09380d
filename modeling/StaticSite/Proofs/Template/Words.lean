import Mathlib.Data.List.Chain
import StaticSite.Proofs.Outcome
import StaticSite.Template.Tag

namespace StaticSite.Template

def isPlain (c : Char) : Bool :=
  c.isAlphanum || c = '_' || c = '-' || c = '.' || c = '@' || c = '/'

theorem isPlain_iff {c : Char} : isPlain c ↔
    c.isAlphanum ∨ c = '_' ∨ c = '-' ∨ c = '.' ∨ c = '@' ∨ c = '/' := by
  simp [isPlain, or_assoc]

theorem ne_of_isPlain {c d : Char} (hc : isPlain c) (hd : isPlain d = false) : c ≠ d := by
  rintro rfl
  rw [hc] at hd
  cases hd

theorem isQuote_of_isPlain {c : Char} (h : isPlain c) : isQuote c = false := by
  simp [isQuote, ne_of_isPlain h (d := '"') rfl, ne_of_isPlain h (d := '\x27') rfl]

theorem isSpace_of_isAlphanum {c : Char} (h : c.isAlphanum) : Text.isSpace c = false := by
  have hbounds : 0x30 ≤ c.toNat ∧ c.toNat ≤ 0x7A := by
    obtain hletter | hdigit := Bool.or_eq_true_iff.mp h
    · obtain hupper | hlower := Bool.or_eq_true_iff.mp hletter
      · have hupper : 0x41 ≤ c.toNat ∧ c.toNat ≤ 0x5A := of_decide_eq_true hupper
        omega
      · have hlower : 0x61 ≤ c.toNat ∧ c.toNat ≤ 0x7A :=
          (Bool.and_eq_true_iff.mp hlower).imp of_decide_eq_true of_decide_eq_true
        omega
    · have hdigit : 0x30 ≤ c.toNat ∧ c.toNat ≤ 0x39 := Char.isDigit_iff_toNat.mp hdigit
      omega
  simp [Text.isSpace, Text.spaceRanges]
  omega

theorem isSpace_of_isPlain {c : Char} (h : isPlain c) : Text.isSpace c = false := by
  obtain h | rfl | rfl | rfl | rfl | rfl := isPlain_iff.mp h
  · exact isSpace_of_isAlphanum h
  all_goals decide

structure Plain (cs : List Char) : Prop where
  ne_nil : cs ≠ []
  isPlain : ∀ c ∈ cs, isPlain c

theorem plain_iff {cs : List Char} : Plain cs ↔ cs ≠ [] ∧ cs.all isPlain := by
  rw [List.all_eq_true]
  exact ⟨fun h => ⟨h.ne_nil, h.isPlain⟩, fun h => ⟨h.1, h.2⟩⟩

instance (cs : List Char) : Decidable (Plain cs) := decidable_of_iff _ plain_iff.symm

theorem Plain.not_mem {cs : List Char} (h : Plain cs) {d : Char}
    (hd : Template.isPlain d = false) : d ∉ cs := fun hmem => ne_of_isPlain (h.isPlain d hmem) hd rfl

def Passes (cs : List Char) : Prop :=
  ∀ word rest,
    wordsFrom word none false (cs ++ rest) = wordsFrom (cs.reverse ++ word) none false rest

theorem Passes.append {cs ds : List Char} (h : Passes cs) (h' : Passes ds) : Passes (cs ++ ds) := by
  intro word rest
  rw [List.append_assoc, h, h', List.reverse_append, List.append_assoc]

theorem passes_of_forall {cs : List Char}
    (h : ∀ c ∈ cs, isQuote c = false ∧ Text.isSpace c = false) : Passes cs := by
  induction cs with
  | nil => exact fun _ _ => rfl
  | cons c cs ih =>
    intro word rest
    obtain ⟨⟨hquote, hspace⟩, hcs⟩ := List.forall_mem_cons.mp h
    simp [wordsFrom, hquote, hspace, ih hcs (c :: word) rest]

abbrev Unclosing (c d : Char) : Prop := ¬ (c = '}' ∧ d = '}')

structure Sealed (cs : List Char) : Prop where
  isChain : (cs ++ ['}']).IsChain Unclosing
  getLast : ∀ c ∈ cs.getLast?, Text.isSpace c = false

theorem Sealed.nil : Sealed [] := ⟨.singleton _, nofun⟩

theorem Sealed.append {cs ds : List Char} (h : Sealed cs) (h' : Sealed ds) : Sealed (cs ++ ds) where
  isChain := by
    obtain ⟨hcs, -, hend⟩ := List.isChain_append.mp h.isChain
    rw [List.append_assoc]
    refine List.isChain_append.mpr ⟨hcs, h'.isChain, fun c hc d _ hcd => ?_⟩
    exact hend c hc '}' (by simp) ⟨hcd.1, rfl⟩
  getLast c hc := by
    rw [List.getLast?_append] at hc
    obtain hds | ⟨-, hcs⟩ := Option.or_eq_some_iff.mp hc
    · exact h'.getLast c hds
    · exact h.getLast c hcs

theorem Sealed.cons {c : Char} {cs : List Char} (h : Sealed cs) (hc : c ≠ '}') (hne : cs ≠ []) :
    Sealed (c :: cs) where
  isChain := List.isChain_cons.mpr ⟨fun _ _ hcd => hc hcd.1, h.isChain⟩
  getLast := by simpa [List.getLast?_cons_of_ne_nil hne] using h.getLast

theorem sealed_singleton {c : Char} (hc : c ≠ '}' ∧ Text.isSpace c = false) : Sealed [c] :=
  ⟨by simp [hc.1], by simpa using hc.2⟩

theorem sealed_of_forall {cs : List Char} (h : ∀ c ∈ cs, c ≠ '}' ∧ Text.isSpace c = false) :
    Sealed cs := by
  induction cs with
  | nil => exact .nil
  | cons c cs ih =>
    obtain ⟨hc, hcs⟩ := List.forall_mem_cons.mp h
    exact (sealed_singleton hc).append (ih hcs)

structure Word (cs : List Char) : Prop where
  ne_nil : cs ≠ []
  passes : Passes cs
  isSealed : Sealed cs

theorem Plain.word {cs : List Char} (h : Plain cs) : Word cs where
  ne_nil := h.ne_nil
  passes := passes_of_forall fun c hc =>
    ⟨isQuote_of_isPlain (h.isPlain c hc), isSpace_of_isPlain (h.isPlain c hc)⟩
  isSealed := sealed_of_forall fun c hc =>
    ⟨ne_of_isPlain (h.isPlain c hc) rfl, isSpace_of_isPlain (h.isPlain c hc)⟩

def spaced (ws : List (List Char)) : List Char := ws.flatMap (' ' :: ·)

@[simp] theorem spaced_nil : spaced [] = [] := rfl

@[simp] theorem spaced_cons (w : List Char) (ws : List (List Char)) :
    spaced (w :: ws) = ' ' :: (w ++ spaced ws) := rfl

theorem words_eq {w : List Char} {ws : List (List Char)} (hw : Word w) (hws : ∀ v ∈ ws, Word v) :
    words (String.ofList (w ++ spaced ws)) = .ok ((w :: ws).map String.ofList) := by
  have hfrom : wordsFrom [] none false (w ++ spaced ws) = some ((w :: ws).map String.ofList) := by
    induction ws generalizing w with
    | nil =>
      rw [hw.passes]
      simp [wordsFrom, hw.ne_nil]
    | cons v ws ih =>
      obtain ⟨hv, hws⟩ := List.forall_mem_cons.mp hws
      have hspace : Text.isSpace ' ' := by decide
      rw [hw.passes, spaced_cons, wordsFrom]
      simp [isQuote, hspace, hw.ne_nil, ih hv hws]
  simp [words, hfrom]

theorem sealed_spaced {ws : List (List Char)} (h : ∀ w ∈ ws, Word w) : Sealed (spaced ws) := by
  induction ws with
  | nil => exact .nil
  | cons w ws ih =>
    obtain ⟨hw, hws⟩ := List.forall_mem_cons.mp h
    exact (hw.isSealed.cons (by decide) hw.ne_nil).append (ih hws)

theorem words_plain {w : String} (h : Plain w.toList) : words w = .ok [w] := by
  simpa using words_eq h.word (List.forall_mem_nil Word)

def escaped (cs : List Char) : List Char := cs.flatMap fun c => ['\\', c]

@[simp] theorem escaped_nil : escaped [] = [] := rfl

@[simp] theorem escaped_cons (c : Char) (cs : List Char) :
    escaped (c :: cs) = '\\' :: c :: escaped cs := rfl

def enquoted (q : Char) (s : String) : List Char := q :: (escaped s.toList ++ [q])

def quoted (s : String) : List Char := '"' :: (escaped s.toList ++ ['"'])

theorem isQuote_iff {q : Char} : isQuote q ↔ q = '"' ∨ q = '\x27' := by
  simp [isQuote]

theorem isSpace_of_isQuote {q : Char} (h : isQuote q) : Text.isSpace q = false := by
  obtain rfl | rfl := isQuote_iff.mp h
  · decide
  · decide

@[simp] theorem unescape_escaped (cs : List Char) : unescape (escaped cs) = cs := by
  induction cs with
  | nil => rfl
  | cons c cs ih => simp [unescape, ih]

theorem unquote?_enquoted {q : Char} (hq : isQuote q) (s : String) :
    unquote? (enquoted q s) = some s := by
  simp [enquoted, unquote?, hq]

theorem unquote?_quoted (s : String) : unquote? (quoted s) = some s := unquote?_enquoted rfl s

theorem wordsFrom_escaped (q : Char) (word cs rest : List Char) :
    wordsFrom word (some q) false (escaped cs ++ rest) =
      wordsFrom ((escaped cs).reverse ++ word) (some q) false rest := by
  induction cs generalizing word with
  | nil => rfl
  | cons c cs ih => simp [wordsFrom, ih]

theorem isChain_escaped {q : Char} (hq : q ≠ '}') (cs : List Char) :
    (escaped cs ++ [q, '}']).IsChain Unclosing := by
  induction cs with
  | nil => simp [hq]
  | cons c cs ih =>
    have hhead : ∀ d ∈ (escaped cs ++ [q, '}']).head?, Unclosing c d := by
      cases cs <;> simp [hq]
    simp only [escaped_cons, List.cons_append, List.isChain_cons_cons]
    exact ⟨by simp, List.isChain_cons.mpr ⟨hhead, ih⟩⟩

theorem sealed_enquoted {q : Char} (hq : isQuote q) (s : String) : Sealed (enquoted q s) where
  isChain := by
    have hbrace : q ≠ '}' := by
      rintro rfl
      cases hq
    have hchain := isChain_escaped hbrace s.toList
    simpa [enquoted] using List.isChain_cons.mpr ⟨fun _ _ hqd => hbrace hqd.1, hchain⟩
  getLast := by simpa [enquoted, List.getLast?_cons] using isSpace_of_isQuote hq

theorem word_enquoted {q : Char} (hq : isQuote q) (s : String) : Word (enquoted q s) where
  ne_nil := nofun
  passes word rest := by
    have hslash : q ≠ '\\' := by
      rintro rfl
      cases hq
    simp [enquoted, wordsFrom, hq, hslash, wordsFrom_escaped]
  isSealed := sealed_enquoted hq s

theorem word_quoted (s : String) : Word (quoted s) := word_enquoted rfl s

def Tight : List Char → Prop
  | [] => True
  | c :: cs => isQuote c ∨ (Text.isSpace c = false ∧ Tight cs)

theorem Tight.concat {cs : List Char} (h : Tight cs) {c : Char}
    (hc : Text.isSpace c = false ∨ ∃ q ∈ cs, isQuote q) : Tight (cs ++ [c]) := by
  induction cs with
  | nil => exact .inr ⟨by simpa using hc, trivial⟩
  | cons d cs ih =>
    by_cases hd : isQuote d
    · exact .inl hd
    · obtain hquote | ⟨hspace, h⟩ := h
      · exact absurd hquote hd
      · exact .inr ⟨hspace, ih h (hc.imp id fun ⟨q, hq, hquote⟩ => ⟨q, by
          obtain rfl | hq := List.mem_cons.mp hq
          · exact absurd hquote hd
          · exact hq, hquote⟩)⟩

theorem Tight.isSpace_of_mem {cs ds : List Char} (h : Tight (cs ++ ds))
    (hcs : ∀ c ∈ cs, isQuote c = false) : ∀ c ∈ cs, Text.isSpace c = false := by
  induction cs with
  | nil => exact nofun
  | cons c cs ih =>
    obtain ⟨hc, hcs⟩ := List.forall_mem_cons.mp hcs
    obtain hquote | ⟨hspace, h⟩ := h
    · simp [hc] at hquote
    · exact List.forall_mem_cons.mpr ⟨hspace, ih h hcs⟩

structure Begun (word : List Char) (quote : Option Char) : Prop where
  tight : Tight word.reverse
  exists_quote : quote.isSome → ∃ q ∈ word, isQuote q

theorem Begun.nil : Begun [] none := ⟨trivial, nofun⟩

theorem Begun.inside {word : List Char} {q : Char} (h : Begun word (some q)) (c : Char)
    (quote : Option Char) : Begun (c :: word) quote where
  tight := by simpa using h.tight.concat (.inr (by simpa using h.exists_quote rfl))
  exists_quote _ := (h.exists_quote rfl).imp fun _ hq => hq.imp (List.mem_cons_of_mem c) id

theorem Begun.quote {word : List Char} (h : Begun word none) {c : Char} (hc : isQuote c) :
    Begun (c :: word) (some c) where
  tight := by
    simpa using h.tight.concat (.inl (isSpace_of_isQuote hc))
  exists_quote _ := ⟨c, by simp, hc⟩

theorem Begun.outside {word : List Char} (h : Begun word none) {c : Char}
    (hc : Text.isSpace c = false) : Begun (c :: word) none where
  tight := by simpa using h.tight.concat (.inl hc)
  exists_quote := nofun

theorem wordsFrom_sound {word : List Char} {quote : Option Char} {quoting : Bool} {cs : List Char}
    {ws : List String} (hword : Begun word quote) (h : wordsFrom word quote quoting cs = some ws) :
    ∀ w ∈ ws, w.toList <:+: word.reverse ++ cs ∧ Tight w.toList := by
  -- The cases are those of the reader: the end, a character between quotes, a quote, a space.
  fun_induction wordsFrom word quote quoting cs generalizing ws with
  | case1 word quote quoting hopen => cases h
  | case2 word quote quoting hopen =>
    cases h
    intro w hw
    split at hw
    · cases hw
    · rw [List.mem_singleton.mp hw, String.toList_ofList, List.append_nil]
      exact ⟨List.infix_rfl, hword.tight⟩
  | case3 word c cs q ih => simpa using ih (hword.inside _ _) h
  | case4 word quoting cs q hquoting ih => simpa using ih (hword.inside _ _) h
  | case5 word quoting c cs q hquoting hc ih => simpa using ih (hword.inside _ _) h
  | case6 word quoting c cs hc ih => simpa using ih (hword.quote hc) h
  | case7 word quoting c cs hc hspace hempty ih =>
    intro w hw
    obtain ⟨hin, htight⟩ := ih .nil h w hw
    exact ⟨hin.trans (List.suffix_append_of_suffix (List.suffix_cons c cs)).isInfix, htight⟩
  | case8 word quoting c cs hc hspace hempty ih =>
    obtain ⟨ws, hws, h⟩ := Option.map_eq_some_iff.mp h
    cases h
    refine List.forall_mem_cons.mpr ⟨?_, fun w hw => ?_⟩
    · rw [String.toList_ofList]
      exact ⟨(List.prefix_append _ _).isInfix, hword.tight⟩
    · obtain ⟨hin, htight⟩ := ih .nil hws w hw
      exact ⟨hin.trans (List.suffix_append_of_suffix (List.suffix_cons c cs)).isInfix, htight⟩
  | case9 word quoting c cs hc hspace ih =>
    simpa using ih (hword.outside (by simpa using hspace)) h

theorem words_sound {content : String} {ws : List String} (h : words content = .ok ws) :
    ∀ w ∈ ws, w.toList <:+: content.toList ∧ Tight w.toList := by
  unfold words at h
  split at h
  · next hws =>
    cases h
    exact wordsFrom_sound .nil hws
  · cases h

end StaticSite.Template
