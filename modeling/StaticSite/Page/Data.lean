import StaticSite.Datum.Basic
import StaticSite.Page.Declaration

namespace StaticSite

def Value.ofText? : Option String → Value
  | some s => .string s
  | none => .null

namespace PageNode

mutual

def value : PageNode → Value
  | ⟨fragment, text, props, children⟩ =>
    .map ((fragment.toList.map fun s => ("fragment", .string s)) ++
      (text.toList.map fun s => ("text", .string s)) ++
      (if props.isEmpty then [] else [("props", .map props)]) ++
      (if children.isEmpty then [] else [("children", .list (values children))]))

def values : List PageNode → List Value
  | [] => []
  | n :: ns => n.value :: values ns

end

mutual

def ofDatum? (p : Positional) : Datum → Option PageNode
  | .scalar s => if s.empty then some {} else none
  | .list items => if p.allows 4 items.length then ofItems? p items else none
  | .map members => ofMembers? p [] {} members
  | .tagged d => ofDatum? p d

def ofMembers? (p : Positional) (seen : List String) (n : PageNode) :
    List (String × Datum) → Option PageNode
  | [] => some n
  | (key, d) :: rest =>
    if seen.contains key then none
    else do
      let n ←
        if key = "fragment" then
          (d.optional? Datum.text?).map fun fragment => { n with fragment }
        else if key = "text" then (d.optional? Datum.text?).map fun text => { n with text }
        else if key = "props" then d.props?.map fun props => { n with props }
        else if key = "children" then (childrenOf? p d).map fun children => { n with children }
        else none
      ofMembers? p (key :: seen) n rest

/-- Fields in their order; the last ones may be missing, and what follows them does not count. -/
def ofItems? (p : Positional) : List Datum → Option PageNode
  | [] => some {}
  | [f] => do return { fragment := ← f.optional? Datum.text? }
  | [f, t] => do
    return { fragment := ← f.optional? Datum.text?, text := ← t.optional? Datum.text? }
  | [f, t, ps] => do
    return {
      fragment := ← f.optional? Datum.text?, text := ← t.optional? Datum.text?
      props := ← ps.props? }
  | f :: t :: ps :: cs :: _ => do
    return {
      fragment := ← f.optional? Datum.text?, text := ← t.optional? Datum.text?, props := ← ps.props?
      children := ← childrenOf? p cs }

def childrenOf? (p : Positional) : Datum → Option (List PageNode)
  | .scalar s => if s.empty then some [] else none
  | .list items => nodesOf? p items
  | .map _ => none
  | .tagged d => childrenOf? p d

def nodesOf? (p : Positional) : List Datum → Option (List PageNode)
  | [] => some []
  | d :: ds => do return (← ofDatum? p d) :: (← nodesOf? p ds)

end

end PageNode

namespace PageDecl

def value (d : PageDecl) : Value :=
  .map [("title", .string d.title), ("lang", .ofText? d.lang),
    ("description", .ofText? d.description), ("root", d.root.value)]

def ofDatum? (p : Positional) (d : Datum) : Option PageDecl := do
  let fields ← d.fields? ["title", "lang", "description", "root"] true p
  return {
    title := ← required? Datum.text? "title" fields
    lang := ← defaulted? (Datum.optional? Datum.text?) "lang" none fields
    description := ← defaulted? (Datum.optional? Datum.text?) "description" none fields
    root := ← required? (PageNode.ofDatum? p) "root" fields }

end PageDecl

end StaticSite
