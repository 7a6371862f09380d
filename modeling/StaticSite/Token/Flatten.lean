import StaticSite.Token.Basic

namespace StaticSite

structure TokenLeaf where
  name : String
  key : String
  value : String

mutual

def Value.tokenText : Value → String
  | .string s => s
  | .list items => ", ".intercalate (Value.tokenTexts items)
  | .null => Json.text .null
  | .bool b => Json.text (.bool b)
  | .number n => Json.text (.number n)
  | .map members => Json.text (.map members)

def Value.tokenTexts : List Value → List String
  | [] => []
  | v :: vs => v.tokenText :: Value.tokenTexts vs

end

namespace TokenLeaf

mutual

/-- The leaves below a value. A map with a `value`, or else a `$value`, stands for that member;
another map is a group, whose keys are joined to the name. -/
def ofValue (name key : String) : Value → Except TokenFault (List TokenLeaf)
  | .null => .error (.noValue key)
  | .map members =>
    match ofMember? "value" name key members with
    | some leaves => leaves
    | none =>
      match ofMember? "$value" name key members with
      | some leaves => leaves
      | none => ofMembers name key members
  | .bool b => .ok [⟨name, key, Value.tokenText (.bool b)⟩]
  | .number n => .ok [⟨name, key, Value.tokenText (.number n)⟩]
  | .string s => .ok [⟨name, key, s⟩]
  | .list items => .ok [⟨name, key, Value.tokenText (.list items)⟩]

def ofMember? (wanted name key : String) :
    List (String × Value) → Option (Except TokenFault (List TokenLeaf))
  | [] => none
  | (k, v) :: rest =>
    if k = wanted then some (ofValue name key v) else ofMember? wanted name key rest

def ofMembers (name key : String) : List (String × Value) → Except TokenFault (List TokenLeaf)
  | [] => .ok []
  | (k, v) :: rest => do
    let leaves ← ofValue (name ++ "-" ++ Text.kebab k) (key ++ "." ++ k) v
    return leaves ++ (← ofMembers name key rest)

end

def ofCategory (category : String) : List (String × Value) → Except TokenFault (List TokenLeaf)
  | [] => .ok []
  | (k, v) :: rest => do
    let leaves ← ofValue (Text.kebab k) (category ++ "." ++ k) v
    return leaves ++ (← ofCategory category rest)

end TokenLeaf

structure TokenDraft where
  groups : List TokenGroup := []
  seen : List (String × String) := []

namespace TokenDraft

def flatKey (category name : String) : String := category ++ "/" ++ name

def note (category : String) (seen : List (String × String)) :
    List TokenLeaf → Except TokenFault (List (String × String))
  | [] => .ok seen
  | leaf :: rest =>
    let flat := flatKey category leaf.name
    match seen.lookup flat with
    | some first => .error (.clash first leaf.key flat)
    | none => note category ((flat, leaf.key) :: seen) rest

/-- Categories whose names become the same share one group. -/
def addTokens (name : String) (tokens : List Token) : List TokenGroup → List TokenGroup
  | [] => [⟨name, tokens⟩]
  | g :: rest =>
    if g.name = name then { g with tokens := g.tokens ++ tokens } :: rest
    else g :: addTokens name tokens rest

def add (d : TokenDraft) (category : String) (group : Value) : Except TokenFault TokenDraft :=
  match group with
  | .map members => do
    let leaves ← TokenLeaf.ofCategory category members
    let name := Text.kebab category
    let seen ← note name d.seen leaves
    return { groups := addTokens name (leaves.map fun l => ⟨name, l.name, l.value⟩) d.groups, seen }
  | _ => .error (.categoryNotTable category)

end TokenDraft

def TokenSet.ofValue : Value → Except TokenFault TokenSet
  | .map categories => do
    let d ← categories.foldlM (fun d (c : String × Value) => d.add c.1 c.2) ({} : TokenDraft)
    return { groups := d.groups }
  | _ => .error .notTable

end StaticSite
