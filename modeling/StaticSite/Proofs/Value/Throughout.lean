import StaticSite.Value.Basic

namespace StaticSite.Value

mutual

def Throughout (P : Value → Prop) : Value → Prop
  | .null => P .null
  | .bool b => P (.bool b)
  | .number n => P (.number n)
  | .string s => P (.string s)
  | .list items => P (.list items) ∧ ThroughoutItems P items
  | .map members => P (.map members) ∧ ThroughoutMembers P members

def ThroughoutItems (P : Value → Prop) : List Value → Prop
  | [] => True
  | v :: vs => v.Throughout P ∧ ThroughoutItems P vs

def ThroughoutMembers (P : Value → Prop) : List (String × Value) → Prop
  | [] => True
  | (_, v) :: ms => v.Throughout P ∧ ThroughoutMembers P ms

end

mutual

def depth : Value → Nat
  | .null | .bool _ | .number _ | .string _ => 0
  | .list items => depthItems items + 1
  | .map members => depthMembers members + 1

def depthItems : List Value → Nat
  | [] => 0
  | v :: vs => max v.depth (depthItems vs)

def depthMembers : List (String × Value) → Nat
  | [] => 0
  | (_, v) :: ms => max v.depth (depthMembers ms)

end

def Whole : Value → Prop
  | .number (.float _) => False
  | _ => True

def KeysOnce : Value → Prop
  | .map members => (Props.keys members).Nodup
  | _ => True

theorem throughoutMembers_iff {P : Value → Prop} {ms : List (String × Value)} :
    ThroughoutMembers P ms ↔ ∀ m ∈ ms, m.2.Throughout P := by
  induction ms with
  | nil => simp [ThroughoutMembers]
  | cons m ms ih => rw [ThroughoutMembers, ih, List.forall_mem_cons]

theorem keysOnce_map_iff {ms : List (String × Value)} :
    (Value.map ms).Throughout KeysOnce ↔
      (Props.keys ms).Nodup ∧ ∀ m ∈ ms, m.2.Throughout KeysOnce := by
  rw [Throughout, throughoutMembers_iff]
  rfl

end StaticSite.Value
