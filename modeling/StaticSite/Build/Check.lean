import StaticSite.Build.Stage

namespace StaticSite

structure CheckReport where
  tokens : Nat
  fragments : Nat
  pages : Nat
  warnings : List String
  deriving DecidableEq

def PageSource.check (r : Registry) (pages : List PageSource) : Except PageError Unit := do
  checkOutputs [] pages
  pages.forM fun p => do let _ ← p.resolve r

def Config.check (c : Config) (d : Disk) : Except BuildError CheckReport := do
  let tokens ← (TokenSet.load d c.tokens).mapError .load
  let _ ← (c.tokenStyle.css tokens).mapError fun f => BuildError.tokens (.value f)
  let r ← (Registry.load d c.fragments).mapError .fragment
  let pages ← (PageSource.loadAll d c.pages).mapError fun e => BuildError.pages (.load e)
  (PageSource.check r pages).mapError .pages
  return {
    tokens := tokens.size, fragments := r.size, pages := pages.length, warnings := r.tierWarnings }

end StaticSite
