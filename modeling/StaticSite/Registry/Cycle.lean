namespace StaticSite

abbrev DependencyGraph := List (String × List String)

namespace DependencyGraph

def cycleAt (name : String) (path : List String) : List String :=
  name :: ((path.takeWhile (· ≠ name)).reverse ++ [name])

/-- Looks for a cycle among what can be reached from a name. `path` is how the name was reached, its
end first, and `done` are names from which no cycle can be reached. Every step of a path is another
name of the graph, so `fuel` lasts if it is greater than the number of names that are not on the
path. -/
def search (g : DependencyGraph) :
    Nat → List String → List String → String → Except (List String) (List String)
  | 0, _, done, _ => .ok done
  | fuel + 1, path, done, name =>
    if done.contains name then .ok done
    else if path.contains name then .error (cycleAt name path)
    else
      match g.lookup name with
      | none => .ok done
      | some names => do
        let done ← names.foldlM (search g fuel (name :: path)) done
        return name :: done

def cycle? (g : DependencyGraph) : Option (List String) :=
  match (g.map Prod.fst).foldlM (search g (g.length + 1) []) [] with
  | .ok _ => none
  | .error names => some names

end DependencyGraph

end StaticSite
