import StaticSite.Proofs.Path.Spelling
import StaticSite.Proofs.Text.Cut
import StaticSite.Proofs.Token.Leaves

namespace StaticSite

namespace TokenStyle

def readDeclaration? (cs : List Char) : Option (String × String) :=
  (Text.cutAt [':', ' '] (Text.trimLeft cs)).map fun r => (String.ofList r.1, String.ofList r.2)

def readDeclarations? (cs : List Char) : Option (List (String × String)) :=
  let ps := Text.pieces ';' cs
  if (ps.getLastD []).all Text.isSpace then ps.dropLast.mapM readDeclaration? else none

/-- The declarations of a text that is one block for the root, without a block inside. -/
def read? (css : String) : Option (List (String × String)) :=
  match Text.cutWhere (· = '{') css.toList with
  | some (selector, rest) =>
    match Text.cutWhere (· = '}') rest with
    | some (body, after) =>
      if Text.trim (String.ofList selector) = ":root" ∧ '{' ∉ body ∧ after.all Text.isSpace then
        readDeclarations? body
      else none
    | none => none
  | none => none

example : read? ":root \x7b\n  --ink: #111;\n  --gap: 1px 2px;\n\x7d\n" =
    some [("--ink", "#111"), ("--gap", "1px 2px")] := by decide +kernel

def entry (name value : List Char) : List Char :=
  '\n' :: ' ' :: ' ' :: (name ++ ':' :: ' ' :: value)

def body (ts : List (List Char × List Char)) : List Char :=
  (ts.map fun t => entry t.1 t.2).flatMap (· ++ [';']) ++ ['\n']

def chars (st : TokenStyle) (t : Token) : List Char × List Char :=
  ((st.property t).toList, t.value.toList)

theorem body_cons (t : List Char × List Char) (ts : List (List Char × List Char)) :
    body (t :: ts) = entry t.1 t.2 ++ ';' :: body ts := by
  simp [body]

theorem declaration_eq_ok {st : TokenStyle} {t : Token} {text : String}
    (h : st.declaration t = .ok text) :
    (∀ c ∈ t.value.toList, isBreaking c = false) ∧
      '\n' :: text.toList = entry (st.chars t).1 (st.chars t).2 ++ [';', '\n'] := by
  unfold declaration at h
  split at h
  · cases h
  · next hvalue =>
    cases h
    exact ⟨by simpa using hvalue, by simp [entry, chars]⟩

theorem declarations_eq_ok {st : TokenStyle} {ts : List Token} {texts : List String}
    (h : ts.mapM st.declaration = .ok texts) :
    (∀ t ∈ ts, ∀ c ∈ t.value.toList, isBreaking c = false) ∧
      '\n' :: (String.join texts).toList = body (ts.map st.chars) := by
  have hall := forall₂_of_mapM_eq_ok h
  clear h
  induction hall with
  | nil => exact ⟨nofun, rfl⟩
  | cons hd _ ih =>
    obtain ⟨hvalue, htext⟩ := declaration_eq_ok hd
    refine ⟨List.forall_mem_cons.mpr ⟨hvalue, ih.1⟩, ?_⟩
    rw [String.join_cons, String.toList_append, ← List.cons_append, htext, List.map_cons, body_cons,
      ← ih.2, List.append_assoc]
    rfl

theorem css_eq_ok {st : TokenStyle} {s : TokenSet} {text : String} (h : st.css s = .ok text) :
    (∀ t ∈ s.tokens, ∀ c ∈ t.value.toList, isBreaking c = false) ∧
      text.toList = ":root ".toList ++ '{' :: (body (s.tokens.map st.chars) ++ ['}', '\n']) := by
  obtain ⟨texts, htexts, h⟩ := exists_of_bind_eq_ok h
  obtain ⟨hvalues, hbody⟩ := declarations_eq_ok htexts
  cases h
  refine ⟨hvalues, ?_⟩
  rw [← hbody]
  simp

theorem read?_eq {text : String} {cs : List Char}
    (h : text.toList = ":root ".toList ++ '{' :: (cs ++ ['}', '\n'])) :
    read? text = if '{' ∈ cs ∨ '}' ∈ cs then none else readDeclarations? cs := by
  have hselector :
      Text.cutWhere (· = '{') text.toList = some (":root ".toList, cs ++ ['}', '\n']) :=
    Text.cutWhere_eq_some_iff.mpr ⟨'{', h, by decide +kernel, by simp⟩
  have htrim : Text.trim (String.ofList ":root ".toList) = ":root" := by decide +kernel
  simp only [read?, hselector, htrim, true_and]
  by_cases hclose : '}' ∈ cs
  · rw [if_pos (.inr hclose)]
    split
    · next body after hcut =>
      obtain ⟨c, heq, hc, hbody⟩ := Text.cutWhere_eq_some_iff.mp hcut
      obtain rfl : c = '}' := of_decide_eq_true hc
      have hcount := congrArg (List.count '}') heq
      have hpos := List.count_pos_iff.mpr hclose
      have hnone : body.count '}' = 0 := List.count_eq_zero.mpr fun hmem =>
        absurd (hbody '}' hmem) (by decide)
      simp only [List.count_append, List.count_cons_self, hnone] at hcount
      have hafter : '}' ∈ after := List.count_pos_iff.mp (by simp at hcount; omega)
      rw [if_neg fun h => absurd (List.all_eq_true.mp h.2 '}' hafter) (by decide)]
    · rfl
  · have hbody : Text.cutWhere (· = '}') (cs ++ ['}', '\n']) = some (cs, ['\n']) :=
      Text.cutWhere_eq_some_iff.mpr ⟨'}', rfl, by decide, fun d hd => by
        simpa using fun heq : d = '}' => hclose (heq ▸ hd)⟩
    have hend : ['\n'].all Text.isSpace = true := by decide
    simp only [hbody, hend, hclose, or_false, and_true]
    by_cases hopen : '{' ∈ cs <;> simp [hopen]

theorem readDeclaration?_entry (name value : List Char) :
    readDeclaration? (entry ('-' :: name) value) =
      (Text.cutAt [':', ' '] ('-' :: name ++ ':' :: ' ' :: value)).map fun r =>
        (String.ofList r.1, String.ofList r.2) := by
  rfl

/-- Text that ends no declaration and no block, and begins none. -/
def Unbroken (cs : List Char) : Prop := ∀ c ∈ cs, c ≠ ';' ∧ c ≠ '{' ∧ c ≠ '}'

@[simp] theorem unbroken_cons {c : Char} {cs : List Char} :
    Unbroken (c :: cs) ↔ (c ≠ ';' ∧ c ≠ '{' ∧ c ≠ '}') ∧ Unbroken cs := List.forall_mem_cons

@[simp] theorem unbroken_append {xs ys : List Char} :
    Unbroken (xs ++ ys) ↔ Unbroken xs ∧ Unbroken ys := List.forall_mem_append

theorem unbroken_iff {cs : List Char} :
    Unbroken cs ↔ ';' ∉ cs ∧ '{' ∉ cs ∧ '}' ∉ cs := by
  constructor
  · intro h
    exact ⟨fun hc => (h _ hc).1 rfl, fun hc => (h _ hc).2.1 rfl, fun hc => (h _ hc).2.2 rfl⟩
  · rintro ⟨hend, hopen, hclose⟩ c hc
    exact ⟨ne_of_mem_of_not_mem hc hend, ne_of_mem_of_not_mem hc hopen,
      ne_of_mem_of_not_mem hc hclose⟩

structure Readable (name : List Char) : Prop where
  unbroken : Unbroken name
  no_mark : ¬[':', ' '] <:+: name

theorem readable_iff {name : List Char} :
    Readable name ↔ Unbroken name ∧ ¬[':', ' '] <:+: name :=
  ⟨fun h => ⟨h.unbroken, h.no_mark⟩, fun h => ⟨h.1, h.2⟩⟩

theorem count_body {ts : List (List Char × List Char)} (hvalues : ∀ t ∈ ts, ';' ∉ t.2) :
    (body ts).count ';' = (ts.flatMap Prod.fst).count ';' + ts.length := by
  induction ts with
  | nil => rfl
  | cons t ts ih =>
    rw [List.forall_mem_cons] at hvalues
    have hvalue : t.2.count ';' = 0 := List.count_eq_zero.mpr hvalues.1
    have hrest := ih hvalues.2
    simp [body_cons, entry, hvalue, hrest]
    omega

theorem mem_body_iff {ts : List (List Char × List Char)} {c : Char}
    (hc : c ∉ [';', '\n', ' ', ':']) : c ∈ body ts ↔ ∃ t ∈ ts, c ∈ t.1 ∨ c ∈ t.2 := by
  simp only [List.mem_cons, List.not_mem_nil, or_false, not_or] at hc
  simp [body, entry, hc]

theorem pieces_body {ts : List (List Char × List Char)}
    (h : ∀ t ∈ ts, ';' ∉ t.1 ∧ ';' ∉ t.2) :
    Text.pieces ';' (body ts) = (ts.map fun t => entry t.1 t.2) ++ [['\n']] := by
  induction ts with
  | nil => rfl
  | cons t ts ih =>
    rw [List.forall_mem_cons] at h
    have hentry : ';' ∉ entry t.1 t.2 := by simp [entry, h.1]
    rw [body_cons, Text.pieces, Text.piecesFrom_append hentry, ← Text.pieces, ih h.2]
    rfl

theorem readDeclarations?_body {ts : List (List Char × List Char)}
    (h : ∀ t ∈ ts, ';' ∉ t.1 ∧ ';' ∉ t.2) :
    readDeclarations? (body ts) = (ts.map fun t => entry t.1 t.2).mapM readDeclaration? := by
  have hend : ['\n'].all Text.isSpace = true := by decide
  simp only [readDeclarations?, pieces_body h, List.getLastD_concat, List.dropLast_concat, hend,
    if_true]

theorem length_of_readDeclarations? {cs : List Char} {ds : List (String × String)}
    (h : readDeclarations? cs = some ds) : ds.length = cs.count ';' := by
  simp only [readDeclarations?] at h
  split at h
  · have hlength := (mapM_eq_some_iff.mp h).length_eq
    rw [List.length_dropLast, Text.length_pieces] at hlength
    omega
  · cases h

theorem readDeclaration?_eq_iff {name value : List Char} (hname : ∃ rest, name = '-' :: rest) :
    readDeclaration? (entry name value) = some (String.ofList name, String.ofList value) ↔
      ¬[':', ' '] <:+: name := by
  obtain ⟨rest, rfl⟩ := hname
  rw [readDeclaration?_entry, Option.map_eq_some_iff]
  constructor
  · rintro ⟨⟨a, b⟩, hcut, heq⟩
    obtain rfl : a = '-' :: rest := String.ofList_injective (Prod.mk.inj heq).1
    exact Text.not_infix_of_cutAt (by decide) hcut
  · intro h
    exact ⟨_, Text.cutAt_append (by decide) h value, rfl⟩

theorem readDeclarations?_body_eq_iff {ts : List (List Char × List Char)}
    (hnames : ∀ t ∈ ts, ∃ rest, t.1 = '-' :: rest) (hvalues : ∀ t ∈ ts, ';' ∉ t.2) :
    readDeclarations? (body ts) =
        some (ts.map fun t => (String.ofList t.1, String.ofList t.2)) ↔
      ∀ t ∈ ts, ';' ∉ t.1 ∧ ¬[':', ' '] <:+: t.1 := by
  have hpieces (hno : ∀ t ∈ ts, ';' ∉ t.1) :
      readDeclarations? (body ts) =
          some (ts.map fun t => (String.ofList t.1, String.ofList t.2)) ↔
        ∀ t ∈ ts, ¬[':', ' '] <:+: t.1 := by
    rw [readDeclarations?_body fun t ht => ⟨hno t ht, hvalues t ht⟩, mapM_eq_some_iff,
      List.forall₂_map_left_iff, List.forall₂_map_right_iff, List.forall₂_same]
    exact forall₂_congr fun t ht => readDeclaration?_eq_iff (hnames t ht)
  constructor
  · intro h
    -- As many declarations come back as there are semicolons, so none of these is in a name.
    have hlength := length_of_readDeclarations? h
    rw [count_body hvalues, List.length_map] at hlength
    have hall : ';' ∉ ts.flatMap Prod.fst := List.count_eq_zero.mp (by omega)
    have hno : ∀ t ∈ ts, ';' ∉ t.1 := fun t ht hc => hall (List.mem_flatMap.mpr ⟨t, ht, hc⟩)
    exact fun t ht => ⟨hno t ht, (hpieces hno).mp h t ht⟩
  · intro h
    exact (hpieces fun t ht => (h t ht).1).mpr fun t ht => (h t ht).2

theorem brace_mem_body_iff {ts : List (List Char × List Char)}
    (hvalues : ∀ t ∈ ts, '{' ∉ t.2 ∧ '}' ∉ t.2) :
    ('{' ∈ body ts ∨ '}' ∈ body ts) ↔ ∃ t ∈ ts, '{' ∈ t.1 ∨ '}' ∈ t.1 := by
  rw [mem_body_iff (by decide), mem_body_iff (by decide)]
  constructor
  · rintro (⟨t, ht, h | h⟩ | ⟨t, ht, h | h⟩)
    · exact ⟨t, ht, .inl h⟩
    · exact absurd h (hvalues t ht).1
    · exact ⟨t, ht, .inr h⟩
    · exact absurd h (hvalues t ht).2
  · rintro ⟨t, ht, h | h⟩
    · exact .inl ⟨t, ht, .inl h⟩
    · exact .inr ⟨t, ht, .inl h⟩

theorem read?_eq_some_iff {text : String} {ts : List (List Char × List Char)}
    (htext : text.toList = ":root ".toList ++ '{' :: (body ts ++ ['}', '\n']))
    (hnames : ∀ t ∈ ts, ∃ rest, t.1 = '-' :: rest)
    (hvalues : ∀ t ∈ ts, ∀ c ∈ t.2, isBreaking c = false) :
    read? text = some (ts.map fun t => (String.ofList t.1, String.ofList t.2)) ↔
      ∀ t ∈ ts, Readable t.1 := by
  have hvalue (c : Char) (hc : isBreaking c = true) (t) (ht : t ∈ ts) : c ∉ t.2 := fun hmem =>
    absurd hc (by simp [hvalues t ht c hmem])
  have hbrace (t) (ht : t ∈ ts) : '{' ∉ t.2 ∧ '}' ∉ t.2 :=
    ⟨hvalue '{' (by decide) t ht, hvalue '}' (by decide) t ht⟩
  rw [read?_eq htext, Option.ite_none_left_eq_some, brace_mem_body_iff hbrace,
    readDeclarations?_body_eq_iff hnames (hvalue ';' (by decide))]
  simp only [readable_iff, unbroken_iff]
  constructor
  · rintro ⟨hno, hrest⟩ t ht
    have hopen : '{' ∉ t.1 := fun hc => hno ⟨t, ht, .inl hc⟩
    have hclose : '}' ∉ t.1 := fun hc => hno ⟨t, ht, .inr hc⟩
    exact ⟨⟨(hrest t ht).1, hopen, hclose⟩, (hrest t ht).2⟩
  · intro h
    refine ⟨?_, fun t ht => ⟨(h t ht).1.1, (h t ht).2⟩⟩
    rintro ⟨t, ht, hc | hc⟩
    · exact (h t ht).1.2.1 hc
    · exact (h t ht).1.2.2 hc

theorem infix_hyphenated_iff {xs ys : List Char} (h : ' ' ∉ ys) :
    [':', ' '] <:+: xs ++ '-' :: ys ↔ [':', ' '] <:+: xs := by
  induction xs with
  | nil =>
    have hnot : ¬[':', ' '] <:+: '-' :: ys := fun hin =>
      absurd (hin.subset (List.mem_cons_of_mem _ List.mem_cons_self)) (by simp [h])
    simp [hnot]
  | cons x xs ih =>
    have hprefix : [':', ' '] <+: x :: (xs ++ '-' :: ys) ↔ [':', ' '] <+: x :: xs := by
      cases xs with
      | nil => simp
      | cons y xs => simp
    rw [List.cons_append, List.infix_cons_iff, List.infix_cons_iff, hprefix, ih]

theorem not_mem_kebab (s : String) : ' ' ∉ (Text.kebab s).toList :=
  fun h => (Text.inKebab_kebab s _ h).ne_space rfl

theorem not_mem_name (l : TokenSource) : ' ' ∉ l.name.toList :=
  fun h => (l.inKebab_name _ h).ne_space rfl

theorem property_toList (lead : Option String) (t : Token) :
    (property ⟨lead⟩ t).toList =
      '-' :: '-' :: (match lead with | some l => l.toList ++ ['-'] | none => []) ++
        (t.category.toList ++ '-' :: t.name.toList) := by
  cases lead <;> simp [property]

theorem readable_property_iff (st : TokenStyle) {t : Token} (hcategory : ' ' ∉ t.category.toList)
    (hname : ' ' ∉ t.name.toList) :
    Readable (st.property t).toList ↔
      Unbroken t.category.toList ∧ Unbroken t.name.toList ∧
        ∀ l ∈ st.lead, Unbroken l.toList ∧ ¬[':', ' '] <:+: l.toList := by
  have hspace : ' ' ∉ t.category.toList ++ '-' :: t.name.toList := by simp [hcategory, hname]
  obtain ⟨lead⟩ := st
  rw [property_toList, readable_iff]
  cases lead with
  | none =>
    have hnot : ¬[':', ' '] <:+: ['-'] := by decide
    have hmark := (@infix_hyphenated_iff ['-'] _ hspace).not.mpr hnot
    simpa using fun _ _ => hmark
  | some l =>
    have hlead : [':', ' '] <:+: '-' :: '-' :: l.toList ↔ [':', ' '] <:+: l.toList := by
      simp [List.infix_cons_iff]
    have hmark := (@infix_hyphenated_iff ('-' :: '-' :: l.toList) _ hspace).trans hlead
    simp only [List.cons_append, List.append_assoc, List.nil_append] at hmark ⊢
    rw [hmark]
    simp
    tauto

/-- A block that is written is read as the properties and values of the tokens, in their order, if
and only if no category, name or lead ends a declaration or a block early, and the lead is not taken
for a name by itself. Values never change what is read. -/
theorem css_read_iff {v : Value} {s : TokenSet} (h : TokenSet.ofValue v = .ok s)
    (lead : Option String) {text : String} (hcss : (ofLead lead).css s = .ok text) :
    read? text = some (s.tokens.map fun t => ((ofLead lead).property t, t.value)) ↔
      ∀ t ∈ s.tokens, Unbroken t.category.toList ∧ Unbroken t.name.toList ∧
        ∀ l ∈ (ofLead lead).lead, Unbroken l.toList ∧ ¬[':', ' '] <:+: l.toList := by
  obtain ⟨hvalues, htext⟩ := css_eq_ok hcss
  have hnames : ∀ t ∈ s.tokens.map (ofLead lead).chars, ∃ rest, t.1 = '-' :: rest := by
    intro _ ht
    obtain ⟨t, -, rfl⟩ := List.mem_map.mp ht
    exact ⟨_, property_toList _ t⟩
  have hread := read?_eq_some_iff htext hnames (by simpa [chars] using hvalues)
  have hchars : ((fun t => (String.ofList t.1, String.ofList t.2)) ∘ (ofLead lead).chars) =
      fun t => ((ofLead lead).property t, t.value) := by
    funext t
    simp [chars]
  rw [List.map_map, hchars, List.forall_mem_map] at hread
  rw [hread]
  refine forall₂_congr fun t ht => ?_
  obtain ⟨l, -, rfl⟩ := List.mem_map.mp ((TokenSet.tokens_perm h).subset ht)
  exact readable_property_iff _ (not_mem_kebab l.category) (not_mem_name l)

def colons : Value := .map [("font:Size", .map [("a:", .string "x: y"), ("b", .string "")])]

theorem ofValue_colons : TokenSet.ofValue colons =
    .ok ⟨[⟨"font:size", [⟨"font:size", "a:", "x: y"⟩, ⟨"font:size", "b", ""⟩]⟩]⟩ := rfl

theorem css_read_colons :
    ∃ s text, TokenSet.ofValue colons = .ok s ∧ (ofLead (some "t:s")).css s = .ok text ∧
      (read? text = some (s.tokens.map fun t => ((ofLead (some "t:s")).property t, t.value)) ↔
        ∀ t ∈ s.tokens, Unbroken t.category.toList ∧ Unbroken t.name.toList ∧
          ∀ l ∈ (ofLead (some "t:s")).lead, Unbroken l.toList ∧ ¬[':', ' '] <:+: l.toList) ∧
      read? text = some [("--t:s-font:size-a:", "x: y"), ("--t:s-font:size-b", "")] :=
  ⟨_, _, ofValue_colons, rfl, css_read_iff ofValue_colons _ rfl, by decide +kernel⟩

def severed : Value := .map [("color", .map [("a;b", .string "1")])]

theorem ofValue_severed :
    TokenSet.ofValue severed = .ok ⟨[⟨"color", [⟨"color", "a;b", "1"⟩]⟩]⟩ := rfl

/-- The block is written all the same, and its only declaration is not read as such. -/
theorem css_severed :
    ∃ s text, TokenSet.ofValue severed = .ok s ∧ (ofLead none).css s = .ok text ∧
      text = ":root \x7b\n  --color-a;b: 1;\n\x7d\n" ∧
      read? text ≠ some (s.tokens.map fun t => ((ofLead none).property t, t.value)) :=
  ⟨_, _, ofValue_severed, rfl, by decide, by decide +kernel⟩

end TokenStyle

end StaticSite
