import Mathlib.Data.List.Nodup
import StaticSite.Json.Decode
import StaticSite.Proofs.Json.Lexeme

namespace StaticSite

namespace Props

theorem insert_of_not_mem {key : String} {value : Value} {p : Props} (h : key ∉ p.keys) :
    insert key value p = p ++ [(key, value)] := by
  induction p with
  | nil => rfl
  | cons m p ih =>
    rw [keys, List.map_cons, List.mem_cons, not_or] at h
    rw [insert, if_neg (Ne.symm h.1), ih h.2, List.cons_append]

theorem ofList_of_nodup {ms : List (String × Value)} (h : (keys ms).Nodup) : ofList ms = ms := by
  induction ms using List.reverseRecOn with
  | nil => rfl
  | append_singleton ms m ih =>
    rw [keys, List.map_append, List.nodup_append] at h
    obtain ⟨hms, -, hnew⟩ := h
    have hlast : ofList (ms ++ [m]) = insert m.1 m.2 (ofList ms) := by
      rw [ofList, List.foldl_append]
      rfl
    rw [hlast, ih hms, insert_of_not_mem fun hmem => hnew _ hmem _ (by simp) rfl]

end Props

namespace Json

mutual

def datum : Value → Datum
  | .null => nothing
  | .bool b => literal (.bool b)
  | .number n => literal (.number n)
  | .string s => .ofText s
  | .list items => .list (itemData items)
  | .map members => .map (memberData members)

def itemData : List Value → List Datum
  | [] => []
  | v :: vs => datum v :: itemData vs

def memberData : List (String × Value) → List (String × Datum)
  | [] => []
  | (k, v) :: ms => (k, datum v) :: memberData ms

end

mutual

theorem foldlM_lexemes : (v : Value) → (fresh : Bool) → (frames : List Frame) →
    v.depth + frames.length ≤ nestingLimit →
    (lexemes v).foldlM Decoder.step? (.busy (.value fresh) frames) = some (.put (datum v) frames)
  | .null, fresh, frames, _ => by simp [lexemes, Decoder.step?, Decoder.value?, datum]
  | .bool b, fresh, frames, _ => by simp [lexemes, Decoder.step?, Decoder.value?, datum]
  | .number n, fresh, frames, _ => by simp [lexemes, Decoder.step?, Decoder.value?, datum]
  | .string s, fresh, frames, _ => by simp [lexemes, Decoder.step?, Decoder.value?, datum]
  | .list items, fresh, frames, h => by
    rw [Value.depth] at h
    have hopen : Decoder.step? (.busy (.value fresh) frames) .openList =
        some (.busy (.value true) (.list [] :: frames)) := by
      have hroom : frames.length < nestingLimit := by omega
      simp [Decoder.step?, Decoder.value?, hroom]
    rw [lexemes, List.foldlM_cons, hopen]
    change List.foldlM _ _ _ = _
    rw [List.foldlM_append]
    cases items with
    | nil => simp [itemLexemes, Decoder.step?, Decoder.close?, datum, itemData]
    | cons v vs =>
      rw [foldlM_itemLexemes (v :: vs) (by simp) true [] frames (by omega)]
      simp [Decoder.step?, Decoder.close?, datum]
  | .map members, fresh, frames, h => by
    rw [Value.depth] at h
    have hopen : Decoder.step? (.busy (.value fresh) frames) .openMap =
        some (.busy (.key true) (.map [] "" :: frames)) := by
      have hroom : frames.length < nestingLimit := by omega
      simp [Decoder.step?, Decoder.value?, hroom]
    rw [lexemes, List.foldlM_cons, hopen]
    change List.foldlM _ _ _ = _
    rw [List.foldlM_append]
    cases members with
    | nil => simp [memberLexemes, Decoder.step?, Decoder.close?, datum, memberData]
    | cons m ms =>
      obtain ⟨key, hfold⟩ := foldlM_memberLexemes (m :: ms) (by simp) true [] "" frames (by omega)
      rw [hfold]
      simp [Decoder.step?, Decoder.close?, datum]

theorem foldlM_itemLexemes : (items : List Value) → items ≠ [] → (fresh : Bool) →
    (rev : List Datum) → (frames : List Frame) →
    Value.depthItems items + (frames.length + 1) ≤ nestingLimit →
    (itemLexemes items).foldlM Decoder.step? (.busy (.value fresh) (.list rev :: frames)) =
      some (.busy .next (.list ((itemData items).reverse ++ rev) :: frames))
  | [v], _, fresh, rev, frames, h => by
    rw [Value.depthItems] at h
    rw [itemLexemes, foldlM_lexemes v fresh (.list rev :: frames) (by simp; omega)]
    rfl
  | v :: w :: rest, _, fresh, rev, frames, h => by
    rw [Value.depthItems] at h
    have hrest := foldlM_itemLexemes (w :: rest) (by simp) false (datum v :: rev) frames (by omega)
    rw [itemLexemes, List.foldlM_append,
      foldlM_lexemes v fresh (.list rev :: frames) (by simp; omega)]
    change List.foldlM _ _ _ = _
    simpa [Decoder.put, Decoder.step?, itemData] using hrest

theorem foldlM_memberLexemes : (members : List (String × Value)) → members ≠ [] → (fresh : Bool) →
    (rev : List (String × Datum)) → (key : String) → (frames : List Frame) →
    Value.depthMembers members + (frames.length + 1) ≤ nestingLimit →
    ∃ last, (memberLexemes members).foldlM Decoder.step?
        (.busy (.key fresh) (.map rev key :: frames)) =
      some (.busy .next (.map ((memberData members).reverse ++ rev) last :: frames))
  | [(k, v)], _, fresh, rev, key, frames, h => by
    rw [Value.depthMembers] at h
    have hv := foldlM_lexemes v false (.map rev k :: frames) (by simp; omega)
    refine ⟨k, ?_⟩
    simpa [memberLexemes, Decoder.step?, Decoder.put, memberData] using hv
  | (k, v) :: m :: rest, _, fresh, rev, key, frames, h => by
    rw [Value.depthMembers] at h
    have hv := foldlM_lexemes v false (.map rev k :: frames) (by simp; omega)
    obtain ⟨last, hrest⟩ :=
      foldlM_memberLexemes (m :: rest) (by simp) false ((k, datum v) :: rev) k frames (by omega)
    refine ⟨last, ?_⟩
    simpa [memberLexemes, Decoder.step?, Decoder.put, memberData, hv] using hrest

end

theorem decode?_text {v : Value} (hwhole : v.Throughout Value.Whole)
    (hdepth : v.depth ≤ nestingLimit) : decode? (text v) = some (datum v) := by
  have hdatum : datumOf? (lexemes v) = some (datum v) := by
    rw [datumOf?, foldlM_lexemes v false [] hdepth]
    rfl
  rw [decode?, text, String.toList_ofList, (spells_chars v hwhole).lexemes?]
  exact hdatum

mutual

theorem value?_datum : (v : Value) → v.Throughout Value.KeysOnce → (datum v).value? = some v
  | .null, _ => rfl
  | .bool _, _ => rfl
  | .number _, _ => rfl
  | .string _, _ => rfl
  | .list items, h => by
    rw [datum, Datum.value?, valueList?_itemData items h.2]
    rfl
  | .map members, h => by
    rw [datum, Datum.value?, valueMembers?_memberData members h.2, Option.map_some,
      Props.ofList_of_nodup h.1]

theorem valueList?_itemData : (items : List Value) → Value.ThroughoutItems Value.KeysOnce items →
    Datum.valueList? (itemData items) = some items
  | [], _ => rfl
  | v :: vs, h => by
    simp [itemData, Datum.valueList?, value?_datum v h.1, valueList?_itemData vs h.2]

theorem valueMembers?_memberData : (members : List (String × Value)) →
    Value.ThroughoutMembers Value.KeysOnce members →
    Datum.valueMembers? (memberData members) = some members
  | [], _ => rfl
  | (k, v) :: ms, h => by
    simp [memberData, Datum.valueMembers?, value?_datum v h.1, valueMembers?_memberData ms h.2]

end

theorem props?_datum {p : Props} (h : (Value.map p).Throughout Value.KeysOnce) :
    (datum (.map p)).props? = some p := by
  rw [datum, Datum.props?, valueMembers?_memberData p h.2, Option.map_some,
    Props.ofList_of_nodup h.1]

end Json

end StaticSite
