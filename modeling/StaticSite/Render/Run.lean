/-! Computations that may fail, and that keep their state when they do. -/

namespace StaticSite

structure Ran (σ ε α : Type) where
  result : Except ε α
  state : σ
  depth : Nat

def Run (σ ε α : Type) := σ → Ran σ ε α

namespace Run

instance : Monad (Run σ ε) where
  pure a := fun s => ⟨.ok a, s, 0⟩
  bind x f := fun s =>
    match x s with
    | ⟨.error e, s, d⟩ => ⟨.error e, s, d⟩
    | ⟨.ok a, s, d⟩ =>
      let r := f a s
      ⟨r.result, r.state, max d r.depth⟩

def fail (e : ε) : Run σ ε α := fun s => ⟨.error e, s, 0⟩

def ofExcept (x : Except ε α) : Run σ ε α := fun s => ⟨x, s, 0⟩

def mapError (f : ε → ε') (x : Run σ ε α) : Run σ ε' α := fun s =>
  let r := x s
  ⟨r.result.mapError f, r.state, r.depth⟩

def attempt (x : Run σ ε α) : Run σ ε' (Except ε α) := fun s =>
  let r := x s
  ⟨.ok r.result, r.state, r.depth⟩

def onSecond (x : Run σ ε α) : Run (τ × σ) ε α := fun s =>
  let r := x s.2
  ⟨r.result, (s.1, r.state), r.depth⟩

def nest (a : τ) (x : Run (τ × σ) ε α) : Run σ ε α := fun s =>
  let r := x (a, s)
  ⟨r.result, r.state.2, r.depth + 1⟩

end Run

end StaticSite
