import StaticSite.Value.Basic

namespace StaticSite

def Props.beyond (base upper : Props) : Props :=
  upper.filter fun m => !base.contains m.1

mutual

def Value.overlay : Value → Option Value → Value
  | .map base, some (.map upper) =>
    .map (Value.overlayMembers base upper ++ Props.beyond base upper)
  | _, some upper => upper
  | base, none => base

def Value.overlayMembers : List (String × Value) → Props → Props
  | [], _ => []
  | (key, value) :: rest, upper =>
    (key, value.overlay (upper.get? key)) :: Value.overlayMembers rest upper

end

/-- The defaults in their order, each under what the caller has at its key, then the caller's other
members in the caller's order. -/
def Props.merge (defaults props : Props) : Props :=
  Value.overlayMembers defaults props ++ beyond defaults props

end StaticSite
