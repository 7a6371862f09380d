import Mathlib.Data.List.Basic
import Mathlib.Data.List.TakeWhile
import StaticSite.FrontMatter
import StaticSite.Proofs.Text.Cut
import StaticSite.Proofs.Text.Trim

namespace StaticSite.FrontMatter

/-- A file that starts with a block of data, and what it is cut into: white space, a mark with the
rest of its line, lines of which none closes the block, one that does, and those after it. -/
inductive Divided : String → FrontMatter → Prop
  | intro {format : DataFormat} {mark blank rest first closing : List Char}
      {inside after : List (List Char)} :
    (format, mark) ∈ delimiters → (∀ c ∈ blank, Text.isSpace c) →
    Text.lines rest = first :: (inside ++ closing :: after) →
    (∀ line ∈ inside, Text.trimRight line ≠ mark) → Text.trimRight closing = mark →
    Divided (String.ofList (blank ++ (mark ++ rest))) {
      format
      text := String.ofList (Text.trimChars (first :: inside).flatten)
      body := String.ofList after.flatten
      bodyLine := (blank ++ (mark ++ ((first :: inside).flatten ++ closing))).count '\n' + 1 }

section Marks

variable {format : DataFormat} {mark : List Char}

theorem eq_of_mem_delimiters (h : (format, mark) ∈ delimiters) :
    format = .yaml ∧ mark = ['-', '-', '-'] ∨ format = .toml ∧ mark = ['+', '+', '+'] := by
  simpa [delimiters] using h

theorem not_mem_mark (h : (format, mark) ∈ delimiters) : '\n' ∉ mark := by
  obtain ⟨-, rfl⟩ | ⟨-, rfl⟩ := eq_of_mem_delimiters h <;> decide

theorem trimRight_mark (h : (format, mark) ∈ delimiters) : Text.trimRight mark = mark := by
  obtain ⟨-, rfl⟩ | ⟨-, rfl⟩ := eq_of_mem_delimiters h <;> decide

theorem isSpace_head_mark (h : (format, mark) ∈ delimiters) (rest : List Char) :
    ∀ c ∈ (mark ++ rest).head?, Text.isSpace c = false := by
  obtain ⟨-, rfl⟩ | ⟨-, rfl⟩ := eq_of_mem_delimiters h <;> rintro c ⟨⟩ <;> decide

theorem find_mark (h : (format, mark) ∈ delimiters) (rest : List Char) :
    delimiters.find? (fun d => d.2.isPrefixOf (mark ++ rest)) = some (format, mark) := by
  obtain ⟨rfl, rfl⟩ | ⟨rfl, rfl⟩ := eq_of_mem_delimiters h <;> simp [delimiters]

end Marks

theorem cutLines_eq_some_iff {mark closing : List Char} {lines inside after : List (List Char)} :
    cutLines mark lines = some (inside, closing, after) ↔
      lines = inside ++ closing :: after ∧ (∀ line ∈ inside, Text.trimRight line ≠ mark) ∧
        Text.trimRight closing = mark := by
  induction lines generalizing inside with
  | nil => simp [cutLines]
  | cons line rest ih =>
    rw [cutLines, closes]
    by_cases hline : Text.trimRight line = mark
    · rw [if_pos (by simpa using hline)]
      constructor
      · rintro h
        cases h
        exact ⟨rfl, nofun, hline⟩
      · rintro ⟨heq, hinside, -⟩
        cases inside with
        | nil =>
          cases heq
          rfl
        | cons l inside =>
          obtain ⟨rfl, -⟩ := List.cons.inj heq
          exact absurd hline (hinside line List.mem_cons_self)
    · rw [if_neg (by simpa using hline), Option.map_eq_some_iff]
      constructor
      · rintro ⟨⟨inside', closing', after'⟩, hcut, heq⟩
        cases heq
        obtain ⟨rfl, hinside, hclosing⟩ := ih.mp hcut
        exact ⟨rfl, List.forall_mem_cons.mpr ⟨hline, hinside⟩, hclosing⟩
      · rintro ⟨heq, hinside, hclosing⟩
        cases inside with
        | nil =>
          obtain ⟨rfl, -⟩ := List.cons.inj heq
          exact absurd hclosing hline
        | cons l inside =>
          obtain ⟨rfl, rfl⟩ := List.cons.inj heq
          have hrest := (List.forall_mem_cons.mp hinside).2
          exact ⟨(inside, closing, after), ih.mpr ⟨rfl, hrest, hclosing⟩, rfl⟩

theorem cutLines_eq_none_iff {mark : List Char} {lines : List (List Char)} :
    cutLines mark lines = none ↔ ∀ line ∈ lines, Text.trimRight line ≠ mark := by
  induction lines with
  | nil => simp [cutLines]
  | cons line rest ih =>
    by_cases hline : Text.trimRight line = mark <;> simp [cutLines, closes, hline, ih]

theorem cut?_eq_some_iff {format : DataFormat} {mark blank rest : List Char} {fm : FrontMatter}
    (hmark : '\n' ∉ mark) :
    cut? format mark blank (mark ++ rest) = some fm ↔
      ∃ first inside closing after, Text.lines rest = first :: (inside ++ closing :: after) ∧
        (∀ line ∈ inside, Text.trimRight line ≠ mark) ∧ Text.trimRight closing = mark ∧
        fm = {
          format
          text := String.ofList (Text.trimChars (first :: inside).flatten)
          body := String.ofList after.flatten
          bodyLine :=
            (blank ++ (mark ++ ((first :: inside).flatten ++ closing))).count '\n' + 1 } := by
  rw [cut?, List.drop_left]
  cases Text.lines rest with
  | nil => simp
  | cons first lines =>
    simp only [Option.map_eq_some_iff, Prod.exists, cutLines_eq_some_iff]
    constructor
    · rintro ⟨inside, closing, after, ⟨rfl, hinside, hclosing⟩, rfl⟩
      refine ⟨first, inside, closing, after, rfl, hinside, hclosing, ?_⟩
      simp [List.count_eq_zero.mpr hmark]
    · rintro ⟨first, inside, closing, after, hlines, hinside, hclosing, rfl⟩
      obtain ⟨rfl, rfl⟩ := List.cons.inj hlines
      refine ⟨inside, closing, after, ⟨rfl, hinside, hclosing⟩, ?_⟩
      simp [List.count_eq_zero.mpr hmark]

theorem cut?_eq_none_iff {format : DataFormat} {mark blank rest : List Char} :
    cut? format mark blank (mark ++ rest) = none ↔
      ∀ line ∈ (Text.lines rest).tail, Text.trimRight line ≠ mark := by
  rw [cut?, List.drop_left]
  cases Text.lines rest with
  | nil => simp
  | cons first lines => simp [cutLines_eq_none_iff]

theorem split?_eq (content : String) :
    split? content =
      match delimiters.find? fun d => d.2.isPrefixOf (Text.trimLeft content.toList) with
      | some (format, mark) =>
        cut? format mark (content.toList.takeWhile Text.isSpace) (Text.trimLeft content.toList)
      | none => none := by
  have hcut := List.takeWhile_append_dropWhile (p := Text.isSpace) (l := content.toList)
  have htext : content.toList.drop (content.toList.takeWhile Text.isSpace).length =
      Text.trimLeft content.toList := by
    calc
      _ = (content.toList.takeWhile Text.isSpace ++ content.toList.dropWhile Text.isSpace).drop
          (content.toList.takeWhile Text.isSpace).length := by rw [hcut]
      _ = _ := List.drop_left
  rw [← htext]
  rfl

theorem split?_of_mark {format : DataFormat} {mark blank : List Char}
    (h : (format, mark) ∈ delimiters) (hblank : ∀ c ∈ blank, Text.isSpace c) (rest : List Char) :
    split? (String.ofList (blank ++ (mark ++ rest))) = cut? format mark blank (mark ++ rest) := by
  have hmark : (mark ++ rest).takeWhile Text.isSpace = [] ∧
      (mark ++ rest).dropWhile Text.isSpace = mark ++ rest := by
    have hhead := isSpace_head_mark h rest
    cases hcs : mark ++ rest with
    | nil => simp
    | cons c cs =>
      rw [hcs] at hhead
      simp [hhead c rfl]
  have hleft : Text.trimLeft (blank ++ (mark ++ rest)) = mark ++ rest := by
    rw [Text.trimLeft, List.dropWhile_append_of_pos hblank, hmark.2]
  rw [split?_eq, String.toList_ofList, hleft, find_mark h,
    List.takeWhile_append_of_pos hblank, hmark.1, List.append_nil]

theorem split?_of_not_mark {content : String}
    (h : ∀ d ∈ delimiters, ¬ d.2 <+: Text.trimLeft content.toList) : split? content = none := by
  have hfind : (delimiters.find? fun d => d.2.isPrefixOf (Text.trimLeft content.toList)) = none :=
    List.find?_eq_none.mpr fun d hd => by simpa using h d hd
  rw [split?_eq, hfind]

theorem mark_cases (content : String) :
    (∀ d ∈ delimiters, ¬ d.2 <+: Text.trimLeft content.toList) ∨
      ∃ format mark blank rest, (format, mark) ∈ delimiters ∧ (∀ c ∈ blank, Text.isSpace c) ∧
        content = String.ofList (blank ++ (mark ++ rest)) ∧
        Text.trimLeft content.toList = mark ++ rest := by
  by_cases h : ∀ d ∈ delimiters, ¬ d.2 <+: Text.trimLeft content.toList
  · exact .inl h
  · push Not at h
    obtain ⟨⟨format, mark⟩, hd, rest, hrest⟩ := h
    refine .inr ⟨format, mark, content.toList.takeWhile Text.isSpace, rest, hd,
      fun c hc => List.mem_takeWhile_imp hc, ?_, hrest.symm⟩
    rw [hrest, Text.trimLeft, List.takeWhile_append_dropWhile, String.ofList_toList]

theorem split?_eq_some_iff {content : String} {fm : FrontMatter} :
    split? content = some fm ↔ Divided content fm := by
  constructor
  · intro h
    obtain hnot | ⟨format, mark, blank, rest, hmark, hblank, rfl, -⟩ := mark_cases content
    · rw [split?_of_not_mark hnot] at h
      cases h
    · rw [split?_of_mark hmark hblank, cut?_eq_some_iff (not_mem_mark hmark)] at h
      obtain ⟨first, inside, closing, after, hlines, hinside, hclosing, rfl⟩ := h
      exact .intro hmark hblank hlines hinside hclosing
  · rintro ⟨hmark, hblank, hlines, hinside, hclosing⟩
    rw [split?_of_mark hmark hblank, cut?_eq_some_iff (not_mem_mark hmark)]
    exact ⟨_, _, _, _, hlines, hinside, hclosing, rfl⟩

theorem split?_eq_none_iff {content : String} :
    split? content = none ↔
      (∀ d ∈ delimiters, ¬ d.2 <+: Text.trimLeft content.toList) ∨
        ∃ d ∈ delimiters, ∃ rest, Text.trimLeft content.toList = d.2 ++ rest ∧
          ∀ line ∈ (Text.lines rest).tail, Text.trimRight line ≠ d.2 := by
  constructor
  · intro h
    obtain hnot | ⟨format, mark, blank, rest, hmark, hblank, rfl, hrest⟩ := mark_cases content
    · exact .inl hnot
    · rw [split?_of_mark hmark hblank, cut?_eq_none_iff] at h
      exact .inr ⟨(format, mark), hmark, rest, hrest, h⟩
  · rintro (hnot | ⟨⟨format, mark⟩, hmark, rest, hrest, hlines⟩)
    · exact split?_of_not_mark hnot
    · rw [split?_eq, hrest, find_mark hmark]
      exact cut?_eq_none_iff.mpr hlines

theorem split?_eq_some {content : String} {fm : FrontMatter} (h : split? content = some fm) :
    ∃ before, content.toList = before ++ fm.body.toList ∧
      before.count '\n' + 1 = fm.bodyLine ∧ (fm.body.toList = [] ∨ ['\n'] <:+ before) := by
  obtain @⟨_, mark, blank, rest, first, closing, inside, after, -, -, hlines, -, -⟩ :=
    split?_eq_some_iff.mp h
  have hrest := congrArg List.flatten hlines
  rw [Text.flatten_lines] at hrest
  refine ⟨blank ++ (mark ++ ((first :: inside).flatten ++ closing)), ?_, rfl, ?_⟩
  · simp [hrest]
  · cases after with
    | nil => exact .inl rfl
    | cons l after =>
      have hlines : Text.linesFrom [] rest = (first :: inside) ++ closing :: l :: after := hlines
      have hend : ['\n'] <:+ closing := Text.linesFrom_ends hlines
      exact .inr (hend.trans ⟨blank ++ (mark ++ (first :: inside).flatten), by simp⟩)

theorem divided_marks {format : DataFormat} {mark blank text : List Char}
    (hmark : (format, mark) ∈ delimiters) (hblank : ∀ c ∈ blank, Text.isSpace c)
    (htext : ∀ line ∈ Text.pieces '\n' text, Text.trimRight line ≠ mark) (body : List Char) :
    let head := blank ++ (mark ++ ('\n' :: (text ++ '\n' :: (mark ++ ['\n']))))
    Divided (String.ofList (head ++ body))
      ⟨format, String.ofList (Text.trimChars text), String.ofList body, head.count '\n' + 1⟩ := by
  intro head
  have hnl : Text.isSpace '\n' := by decide
  have hlines : Text.lines ('\n' :: (text ++ '\n' :: (mark ++ '\n' :: body))) =
      ['\n'] :: ((Text.pieces '\n' text).map (· ++ ['\n']) ++ (mark ++ ['\n']) :: Text.lines body) := by
    have hclosing : Text.pieces '\n' mark = [mark] := Text.piecesFrom_of_not_mem (not_mem_mark hmark)
    have hfirst := Text.lines_append [] (text ++ '\n' :: (mark ++ '\n' :: body))
    rw [List.nil_append] at hfirst
    rw [hfirst, Text.lines_append, Text.lines_append, hclosing]
    rfl
  have hinside : ∀ line ∈ (Text.pieces '\n' text).map (· ++ ['\n']), Text.trimRight line ≠ mark := by
    simp only [List.forall_mem_map, Text.trimRight_concat hnl]
    exact htext
  have hclosing : Text.trimRight (mark ++ ['\n']) = mark := by
    rw [Text.trimRight_concat hnl, trimRight_mark hmark]
  have hblock : ((Text.pieces '\n' text).map (· ++ ['\n'])).flatten = text ++ ['\n'] := by
    have h := Text.flatten_lines (text ++ '\n' :: [])
    rwa [Text.lines_append, List.flatten_append, Text.flatten_lines, List.append_nil] at h
  have h := Divided.intro hmark hblank hlines hinside hclosing
  simpa [head, hblock, Text.trimChars_cons hnl, Text.trimChars_concat hnl] using h

/-- A file is cut exactly where its block of data ends: at the first line that holds the mark and
nothing else, after the line on which the block starts. Without one there is no block. -/
theorem split?_exact :
    (∀ format mark, (format, mark) ∈ delimiters → ∀ blank text body : String, Text.isBlank blank →
      (∀ line ∈ Text.pieces '\n' text.toList, Text.trimRight line ≠ mark) →
      let head := blank ++ String.ofList mark ++ "\n" ++ text ++ "\n" ++ String.ofList mark ++ "\n"
      split? (head ++ body) =
        some ⟨format, Text.trim text, body, head.toList.count '\n' + 1⟩) ∧
    (∀ content fm, split? content = some fm ↔ Divided content fm) ∧
    ∀ content, split? content = none ↔
      (∀ d ∈ delimiters, ¬ d.2 <+: Text.trimLeft content.toList) ∨
        ∃ d ∈ delimiters, ∃ rest, Text.trimLeft content.toList = d.2 ++ rest ∧
          ∀ line ∈ (Text.lines rest).tail, Text.trimRight line ≠ d.2 := by
  refine ⟨fun format mark hmark blank text body hblank htext => ?_,
    fun _ _ => split?_eq_some_iff, fun _ => split?_eq_none_iff⟩
  have hspace : ∀ c ∈ blank.toList, Text.isSpace c := by simpa [Text.isBlank] using hblank
  have h := split?_eq_some_iff.mpr (divided_marks hmark hspace htext body.toList)
  simpa [Text.trim, String.ofList_append, String.append_assoc] using h

theorem split?_exact_lookalikes :
    split? "\n ---\na: b---c\n ---\n\n---\n---\n" =
        some ⟨.yaml, "a: b---c\n ---", "---\n", 7⟩ ∧
      split? "\n ---\na: b---c\n ---\n" = none := by
  obtain ⟨hmarks, -, hnone⟩ := split?_exact
  have hsome := hmarks .yaml ['-', '-', '-'] (by decide) "\n " "a: b---c\n ---\n" "---\n" (by decide)
    (by decide)
  refine ⟨hsome, (hnone _).mpr (.inr ⟨(.yaml, ['-', '-', '-']), by decide, ?_⟩)⟩
  exact ⟨"\na: b---c\n ---\n".toList, by decide, by decide⟩

end StaticSite.FrontMatter
