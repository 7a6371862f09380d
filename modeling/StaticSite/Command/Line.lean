import StaticSite.Path.Basic

namespace StaticSite

inductive Task
  | build (output : Option Path)
  | check (strict : Bool)

structure CommandLine where
  config : Path := .ofText "tessera.toml"
  task : Task

namespace CommandLine

def taskOf? : List String → Option Task
  | ["build"] => some (.build none)
  | ["build", "--output", dir] | ["build", "-o", dir] => some (.build (some (.ofText dir)))
  | ["check"] => some (.check false)
  | ["check", "--strict"] => some (.check true)
  | _ => none

def parse? : List String → Option CommandLine
  | "--config" :: file :: words | "-c" :: file :: words =>
    (taskOf? words).map fun task => { config := .ofText file, task }
  | words => (taskOf? words).map fun task => { task }

def usage : String := "usage: tessera [--config FILE] (build [--output DIR] | check [--strict])"

def output (l : CommandLine) : Option Path :=
  match l.task with
  | .build output => output
  | .check _ => none

end CommandLine

end StaticSite
