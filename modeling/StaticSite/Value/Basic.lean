import StaticSite.Number.Basic

namespace StaticSite

/-- A map is the list of its members in the order in which its keys first came. -/
inductive Value
  | null
  | bool (b : Bool)
  | number (n : Number)
  | string (s : String)
  | list (items : List Value)
  | map (members : List (String × Value))

abbrev Props := List (String × Value)

namespace Value

def ofNat (n : Nat) : Value := .number (.ofNat n)

def ofReal : Number.Real → Value
  | .finite x => .number (.float x)
  | .infinite _ | .nan => .null

mutual

def decEq : (v w : Value) → Decidable (v = w)
  | .null, .null => isTrue rfl
  | .bool a, .bool b =>
    if h : a = b then isTrue (h ▸ rfl) else isFalse fun e => h (Value.bool.inj e)
  | .number a, .number b =>
    if h : a = b then isTrue (h ▸ rfl) else isFalse fun e => h (Value.number.inj e)
  | .string a, .string b =>
    if h : a = b then isTrue (h ▸ rfl) else isFalse fun e => h (Value.string.inj e)
  | .list a, .list b =>
    match decEqList a b with
    | isTrue h => isTrue (h ▸ rfl)
    | isFalse h => isFalse fun e => h (Value.list.inj e)
  | .map a, .map b =>
    match decEqMembers a b with
    | isTrue h => isTrue (h ▸ rfl)
    | isFalse h => isFalse fun e => h (Value.map.inj e)
  | .null, .bool _ | .null, .number _ | .null, .string _ | .null, .list _ | .null, .map _
  | .bool _, .null | .bool _, .number _ | .bool _, .string _ | .bool _, .list _ | .bool _, .map _
  | .number _, .null | .number _, .bool _ | .number _, .string _ | .number _, .list _
  | .number _, .map _
  | .string _, .null | .string _, .bool _ | .string _, .number _ | .string _, .list _
  | .string _, .map _
  | .list _, .null | .list _, .bool _ | .list _, .number _ | .list _, .string _ | .list _, .map _
  | .map _, .null | .map _, .bool _ | .map _, .number _ | .map _, .string _ | .map _, .list _ =>
    isFalse nofun

def decEqList : (v w : List Value) → Decidable (v = w)
  | [], [] => isTrue rfl
  | [], _ :: _ | _ :: _, [] => isFalse nofun
  | v :: vs, w :: ws =>
    match decEq v w, decEqList vs ws with
    | isTrue h, isTrue hs => isTrue (h ▸ hs ▸ rfl)
    | isFalse h, _ => isFalse fun e => h (List.cons.inj e).1
    | _, isFalse hs => isFalse fun e => hs (List.cons.inj e).2

def decEqMembers : (v w : List (String × Value)) → Decidable (v = w)
  | [], [] => isTrue rfl
  | [], _ :: _ | _ :: _, [] => isFalse nofun
  | (k, v) :: vs, (l, w) :: ws =>
    if hk : k = l then
      match decEq v w, decEqMembers vs ws with
      | isTrue h, isTrue hs => isTrue (hk ▸ h ▸ hs ▸ rfl)
      | isFalse h, _ => isFalse fun e => h (Prod.mk.inj (List.cons.inj e).1).2
      | _, isFalse hs => isFalse fun e => hs (List.cons.inj e).2
    else isFalse fun e => hk (Prod.mk.inj (List.cons.inj e).1).1

end

instance : DecidableEq Value := decEq

end Value

namespace Props

def get? (key : String) : Props → Option Value
  | [] => none
  | (k, v) :: rest => if k = key then some v else get? key rest

def contains (key : String) (p : Props) : Bool := p.any fun m => m.1 = key

def insert (key : String) (value : Value) : Props → Props
  | [] => [(key, value)]
  | (k, v) :: rest => if k = key then (k, value) :: rest else (k, v) :: insert key value rest

def keys (p : Props) : List String := p.map Prod.fst

def ofList (ms : List (String × Value)) : Props :=
  ms.foldl (fun p m => insert m.1 m.2 p) []

@[simp] theorem get?_nil (key : String) : get? key [] = none := rfl

@[simp] theorem contains_eq_isSome (key : String) (p : Props) :
    contains key p = (get? key p).isSome := by
  induction p with
  | nil => rfl
  | cons m rest ih =>
    by_cases h : m.1 = key <;> simp_all [contains, get?]

end Props

end StaticSite
