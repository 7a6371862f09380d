namespace StaticSite

inductive BuildState
  | idle
  | cleaning
  | tokens
  | styles
  | pages
  | assets
  | done
  | failed
  deriving DecidableEq

namespace BuildState

def text : BuildState → String
  | idle => "idle"
  | cleaning => "cleaning"
  | tokens => "tokens"
  | styles => "styles"
  | pages => "pages"
  | assets => "assets"
  | done => "done"
  | failed => "error"

def all : List BuildState := [idle, cleaning, tokens, styles, pages, assets, done, failed]

def ofText? (s : String) : Option BuildState := all.find? fun b => b.text = s

def next? : BuildState → Option BuildState
  | idle => some cleaning
  | cleaning => some tokens
  | tokens => some styles
  | styles => some pages
  | pages => some assets
  | assets => some done
  | done | failed => none

def remaining : BuildState → Nat
  | idle => 6
  | cleaning => 5
  | tokens => 4
  | styles => 3
  | pages => 2
  | assets => 1
  | done | failed => 0

def run : Nat → BuildState → List BuildState
  | 0, s => [s]
  | n + 1, s =>
    s :: (match s.next? with
      | some t => run n t
      | none => [])

def onwards (s : BuildState) : List BuildState := run s.remaining s

example : idle.onwards = [idle, cleaning, tokens, styles, pages, assets, done] := rfl

end BuildState

end StaticSite
