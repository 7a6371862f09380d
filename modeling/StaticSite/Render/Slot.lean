import StaticSite.Render.Error
import StaticSite.Render.Run

namespace StaticSite

/-- How a reference to child content was met: by producing the content, by what had been produced,
or with nothing because it came from the production itself. -/
inductive SlotEvent
  | produced (result : Except RenderError String)
  | repeated (result : Except RenderError String)
  | refused

structure Slot where
  busy : Bool := false
  content : Option (Except RenderError String) := none
  events : List SlotEvent := []

/-- Child content on demand. It may use the slot that it is for and the state of the caller. -/
abbrev Producer (σ : Type) := Run (Slot × σ) RenderError String

namespace Slot

def note (e : SlotEvent) (s : Slot) : Slot := { s with events := e :: s.events }

/-- The child content: produced at the first reference and kept; empty if the caller gives none. -/
def children (producer : Option (Producer σ)) : Run (Slot × σ) RenderError String := fun (s, t) =>
  match s.content, producer with
  | some result, _ => ⟨result, (s.note (.repeated result), t), 0⟩
  | none, none => ⟨.ok "", (s, t), 0⟩
  | none, some p =>
    if s.busy then ⟨.ok "", (s.note .refused, t), 0⟩
    else
      let r := p ({ s with busy := true }, t)
      ⟨r.result,
        ({ r.state.1 with content := some r.result }.note (.produced r.result), r.state.2), r.depth⟩

end Slot

end StaticSite
