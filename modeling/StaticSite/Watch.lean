/-! Watching: builds that take up the changes which arrived before them. -/

namespace StaticSite

inductive BuildOutcome
  | succeeded
  | failed
  | broken
  deriving DecidableEq

inductive WatchEvent (α : Type)
  | arrive (change : α)
  | close
  | expire
  | finish (o : BuildOutcome)

/-- What a watch is about. Changes settle until for some time no other arrives, or until none can
arrive any more, which makes the build after them the last one. -/
inductive WatchPhase (α : Type)
  | waiting
  | settling (changes : List α)
  | building (changes : List α) (last : Bool)
  | ended

structure Watch (α : Type) where
  phase : WatchPhase α := .waiting
  queue : List α := []
  closed : Bool := false
  builds : Nat := 0
  failures : Nat := 0
  taken : List (List α) := []

namespace Watch

def start (w : Watch α) (changes : List α) (last : Bool) : Watch α :=
  { w with phase := .building changes last, taken := w.taken ++ [changes] }

def settle (w : Watch α) (changes : List α) : Watch α :=
  if w.closed then w.start changes true else { w with phase := .settling changes }

def advance (w : Watch α) : Watch α :=
  match w.phase, w.queue with
  | .waiting, [] => if w.closed then { w with phase := .ended } else w
  | .waiting, changes => { w with queue := [] }.settle changes
  | .settling old, changes => { w with queue := [] }.settle (old ++ changes)
  | _, _ => w

def arrive (w : Watch α) (change : α) : Watch α :=
  if w.closed then w else { w with queue := w.queue ++ [change] }.advance

def close (w : Watch α) : Watch α := { w with closed := true }.advance

def expire (w : Watch α) : Watch α :=
  match w.phase with
  | .settling changes => w.start changes false
  | _ => w

def finish (w : Watch α) (o : BuildOutcome) : Watch α :=
  match w.phase with
  | .building _ last =>
    match o with
    | .broken => { w with phase := .ended, failures := w.failures + 1 }
    | o =>
      let w := { w with
        builds := w.builds + 1
        failures := if o = BuildOutcome.failed then w.failures + 1 else w.failures }
      if last then { w with phase := .ended } else { w with phase := .waiting }.advance
  | _ => w

def step (w : Watch α) : WatchEvent α → Watch α
  | .arrive change => w.arrive change
  | .close => w.close
  | .expire => w.expire
  | .finish o => w.finish o

def run (w : Watch α) (events : List (WatchEvent α)) : Watch α := events.foldl step w

@[simp] theorem run_nil (w : Watch α) : w.run [] = w := rfl

@[simp] theorem run_append (w : Watch α) (es fs : List (WatchEvent α)) :
    w.run (es ++ fs) = (w.run es).run fs := List.foldl_append

end Watch

end StaticSite
