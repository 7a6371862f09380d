import StaticSite.Datum.Basic
import StaticSite.Json.Lexeme

/-! Decoding JSON text: a stack automaton over its lexemes. -/

namespace StaticSite.Json

/-- No list or map lies inside as many others. -/
def nestingLimit : Nat := 127

inductive Frame
  | list (rev : List Datum)
  | map (rev : List (String × Datum)) (key : String)

/-- What may come next: a value, or the end if the list was just opened (`fresh`); a key, or the end
if the map was just opened; a colon after a key; a comma or the end after a member. -/
inductive Expect
  | value (fresh : Bool)
  | key (fresh : Bool)
  | colon
  | next

inductive Decoder
  | busy (expect : Expect) (frames : List Frame)
  | done (d : Datum)

def literal (v : Value) : Datum := .scalar { value := some v, text := none }

def nothing : Datum := .scalar { value := some .null, text := none, absent := true }

def Decoder.put (d : Datum) : List Frame → Decoder
  | [] => .done d
  | .list rev :: frames => .busy .next (.list (d :: rev) :: frames)
  | .map rev key :: frames => .busy .next (.map ((key, d) :: rev) key :: frames)

def Decoder.close? : Lexeme → List Frame → Option Decoder
  | .closeList, .list rev :: frames => some (put (.list rev.reverse) frames)
  | .closeMap, .map rev _ :: frames => some (put (.map rev.reverse) frames)
  | _, _ => none

def Decoder.value? (l : Lexeme) (frames : List Frame) : Option Decoder :=
  match l with
  | .null => some (put nothing frames)
  | .bool b => some (put (literal (.bool b)) frames)
  | .number n => some (put (literal (.number n)) frames)
  | .string s => some (put (.ofText s) frames)
  | .openList =>
    if frames.length < nestingLimit then some (.busy (.value true) (.list [] :: frames)) else none
  | .openMap =>
    if frames.length < nestingLimit then some (.busy (.key true) (.map [] "" :: frames)) else none
  | _ => none

def Decoder.step? : Decoder → Lexeme → Option Decoder
  | .done _, _ => none
  | .busy (.value fresh) frames, l =>
    if fresh && l = .closeList then close? l frames else value? l frames
  | .busy (.key fresh) frames, l =>
    match l, frames with
    | .string k, .map rev _ :: rest => some (.busy .colon (.map rev k :: rest))
    | .closeMap, _ => if fresh then close? l frames else none
    | _, _ => none
  | .busy .colon frames, l => if l = .colon then some (.busy (.value false) frames) else none
  | .busy .next frames, l =>
    match l, frames with
    | .comma, .list _ :: _ => some (.busy (.value false) frames)
    | .comma, .map _ _ :: _ => some (.busy (.key false) frames)
    | _, _ => close? l frames

def datumOf? (ls : List Lexeme) : Option Datum :=
  match ls.foldlM Decoder.step? (.busy (.value false) []) with
  | some (.done d) => some d
  | _ => none

def decode? (text : String) : Option Datum := lexemes? text.toList >>= datumOf?

end StaticSite.Json
