import StaticSite.Html.Escape
import StaticSite.Page.Declaration
import StaticSite.Render.Basic

namespace StaticSite

inductive PageTree (r : Registry)
  | fragment (id : r.Id) (props : Props) (children : List (PageTree r))
  | text (s : String)

namespace PageTree

mutual

def resolve (r : Registry) (address : List Nat) :
    PageNode → Except (List Nat × FragmentError) (PageTree r)
  | ⟨none, words, _, _⟩ => .ok (.text (words.getD ""))
  | ⟨some name, _, props, children⟩ => do
    let id ← (r.resolve name).mapError fun e => (address, e)
    return .fragment id props (← resolveAll r address 0 children)

def resolveAll (r : Registry) (address : List Nat) (i : Nat) :
    List PageNode → Except (List Nat × FragmentError) (List (PageTree r))
  | [] => .ok []
  | n :: ns => do
    let t ← resolve r (address ++ [i]) n
    return t :: (← resolveAll r address (i + 1) ns)

end

mutual

def render {r : Registry} : PageTree r → Run σ RenderError String
  | .text s => pure (Html.escape s)
  | .fragment id props [] => r.renderId id props none
  | .fragment id props (c :: cs) =>
    let producer : Producer σ := (do
      let html ← render c
      return html ++ (← renderAll cs) : Run σ RenderError String).onSecond
    r.renderId id props (some producer)

def renderAll {r : Registry} : List (PageTree r) → Run σ RenderError String
  | [] => pure ""
  | t :: ts => do
    let html ← render t
    return html ++ (← renderAll ts)

end

end PageTree

end StaticSite
