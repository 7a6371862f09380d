import StaticSite.Page.File
import StaticSite.Proofs.Json.Decode

namespace StaticSite

namespace Json

theorem memberData_append (ms ns : List (String × Value)) :
    memberData (ms ++ ns) = memberData ms ++ memberData ns := by
  induction ms with
  | nil => rfl
  | cons m ms ih => exact congrArg _ ih

end Json

theorem Value.throughoutMembers_append {P : Value → Prop} {ms ns : List (String × Value)} :
    ThroughoutMembers P (ms ++ ns) ↔ ThroughoutMembers P ms ∧ ThroughoutMembers P ns := by
  induction ms with
  | nil => simp [ThroughoutMembers]
  | cons m ms ih => simp [ThroughoutMembers, ih, and_assoc]

theorem Value.whole_ofText? : (t : Option String) → (Value.ofText? t).Throughout Value.Whole
  | none => trivial
  | some _ => trivial

namespace PageNode

mutual

def Each (P : PageNode → Prop) : PageNode → Prop
  | ⟨fragment, text, props, children⟩ =>
    P ⟨fragment, text, props, children⟩ ∧ EachOf P children

def EachOf (P : PageNode → Prop) : List PageNode → Prop
  | [] => True
  | n :: ns => n.Each P ∧ EachOf P ns

end

mutual

theorem each_of_forall {P : PageNode → Prop} (h : ∀ n, P n) : (n : PageNode) → n.Each P
  | ⟨_, _, _, children⟩ => ⟨h _, eachOf_of_forall h children⟩

theorem eachOf_of_forall {P : PageNode → Prop} (h : ∀ n, P n) : (ns : List PageNode) → EachOf P ns
  | [] => trivial
  | n :: ns => ⟨each_of_forall h n, eachOf_of_forall h ns⟩

end

def Says (n : PageNode) (field : String) : Prop :=
  field = "fragment" ∧ n.fragment ≠ none ∨ field = "text" ∧ n.text ≠ none ∨
    field = "props" ∧ n.props ≠ [] ∨ field = "children" ∧ n.children ≠ []

/-- The value of a node holds the fields in which it says something, and no other. -/
def Terse (n : PageNode) : Prop :=
  ∃ members, n.value = .map members ∧ ∀ field, field ∈ Props.keys members ↔ n.Says field

theorem terse (n : PageNode) : n.Terse := by
  obtain ⟨fragment, text, props, children⟩ := n
  refine ⟨_, rfl, fun field => ?_⟩
  cases fragment <;> cases text <;> cases props <;> cases children <;>
    simp [Says, Props.keys]

structure PlainProps (n : PageNode) : Prop where
  whole : (Value.map n.props).Throughout Value.Whole
  keysOnce : (Value.map n.props).Throughout Value.KeysOnce

mutual

theorem whole_value : (n : PageNode) → n.Each PlainProps → n.value.Throughout Value.Whole
  | ⟨fragment, text, props, children⟩, h => by
    have hchildren := whole_values children h.2
    refine ⟨trivial, ?_⟩
    simp only [Value.throughoutMembers_append]
    refine ⟨⟨⟨?_, ?_⟩, ?_⟩, ?_⟩
    · cases fragment <;> simp [Value.ThroughoutMembers, Value.Throughout, Value.Whole]
    · cases text <;> simp [Value.ThroughoutMembers, Value.Throughout, Value.Whole]
    · split
      · trivial
      · exact ⟨h.1.whole, trivial⟩
    · split
      · trivial
      · exact ⟨⟨trivial, hchildren⟩, trivial⟩

theorem whole_values : (ns : List PageNode) → EachOf PlainProps ns →
    Value.ThroughoutItems Value.Whole (values ns)
  | [], _ => trivial
  | n :: ns, h => ⟨whole_value n h.1, whole_values ns h.2⟩

end

theorem optional?_text? (s : String) : (Datum.ofText s).optional? Datum.text? = some (some s) := rfl

mutual

theorem ofDatum?_value (p : Positional) : (n : PageNode) → n.Each PlainProps →
    ofDatum? p (Json.datum n.value) = some n
  | ⟨fragment, text, props, children⟩, h => by
    have hprops := Json.props?_datum h.1.keysOnce
    have hchildren : childrenOf? p (Json.datum (.list (values children))) = some children := by
      rw [Json.datum, childrenOf?, nodesOf?_values p children h.2]
    rw [value, Json.datum, ofDatum?]
    simp only [Json.memberData_append]
    cases fragment <;> cases text <;> cases props <;> cases children <;>
      simp_all [Json.memberData, ofMembers?, optional?_text?, Json.datum]

theorem nodesOf?_values (p : Positional) : (ns : List PageNode) → EachOf PlainProps ns →
    nodesOf? p (Json.itemData (values ns)) = some ns
  | [], _ => rfl
  | n :: ns, h => by
    simp [values, Json.itemData, nodesOf?, ofDatum?_value p n h.1, nodesOf?_values p ns h.2]

end

end PageNode

namespace PageDecl

theorem ofDatum?_value (p : Positional) {d : PageDecl} (h : d.root.Each PageNode.PlainProps) :
    ofDatum? p (Json.datum d.value) = some d := by
  have hfields : (Json.datum d.value).fields? ["title", "lang", "description", "root"] true p =
      some (Json.memberData [("title", .string d.title), ("lang", .ofText? d.lang),
        ("description", .ofText? d.description), ("root", d.root.value)]) := by
    simp [value, Json.datum, Json.memberData, Datum.fields?, Datum.keysOnce]
  have hroot := PageNode.ofDatum?_value p d.root h
  have htext : ∀ t : Option String, (Json.datum (.ofText? t)).optional? Datum.text? = some t := by
    rintro (_ | t) <;> rfl
  rw [ofDatum?, hfields]
  simp [Json.memberData, required?, defaulted?, List.lookup_cons, htext, hroot, Json.datum, Datum.text?,
    Datum.ofText]

/-- A declaration that passes its check is read from its own text, with all props in their order,
although the text leaves out the fields in which its nodes say nothing. -/
theorem parse_text {d : PageDecl} (hcheck : d.check = .ok ())
    (hprops : d.root.Each PageNode.PlainProps) (hdepth : d.value.depth ≤ Json.nestingLimit)
    (file : Path) :
    parse (Json.text d.value) .json file = .ok d ∧ d.root.Each PageNode.Terse := by
  have hwhole : d.value.Throughout Value.Whole :=
    ⟨trivial, trivial, Value.whole_ofText? d.lang, Value.whole_ofText? d.description,
      PageNode.whole_value d.root hprops, trivial⟩
  have hread : DataFormat.json.decode? (Json.text d.value) >>= ofDatum? DataFormat.json.positional =
      some d := by
    rw [DataFormat.decode?, Json.decode?_text hwhole hdepth]
    exact ofDatum?_value _ hprops
  refine ⟨?_, PageNode.each_of_forall PageNode.terse d.root⟩
  rw [parse, hread]
  change (Except.mapError _ d.check >>= fun _ => _) = _
  rw [hcheck]
  rfl

theorem parse_text_nested :
    let minus : Number := .int (-3) (by decide)
    let plus : Number := .int 40 (by decide)
    let inner : Value := .map [("z", .bool true), ("a", .list []), ("m", .null)]
    let plate : PageNode := {
      fragment := some "plate"
      props := [("b", .list [.number minus, inner, .number plus]), ("a", .string "\t\"é")]
      children := [{ text := some "" }, { fragment := some "leaf" }] }
    let d : PageDecl := { title := "A \\ B\n", description := some "", root := plate }
    d.check = .ok () ∧ parse (Json.text d.value) .json ⟨false, ["pages", "p.json"]⟩ = .ok d ∧
      d.root.Each PageNode.Terse := by
  intro minus plus inner plate d
  have hcheck : d.check = .ok () := by decide
  have hbare : ∀ fragment text children, PageNode.PlainProps ⟨fragment, text, [], children⟩ :=
    fun _ _ _ => ⟨⟨trivial, trivial⟩, ⟨List.nodup_nil, trivial⟩⟩
  have hplate : plate.PlainProps := by
    constructor <;>
      simp [plate, inner, minus, plus, Value.Throughout, Value.ThroughoutMembers,
        Value.ThroughoutItems, Value.Whole, Value.KeysOnce, Props.keys]
  have hprops : d.root.Each PageNode.PlainProps :=
    ⟨hplate, ⟨hbare .., trivial⟩, ⟨hbare .., trivial⟩, trivial⟩
  exact ⟨hcheck, parse_text hcheck hprops (by decide) _⟩

end PageDecl

end StaticSite
