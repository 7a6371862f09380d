import StaticSite.Config.Basic
import StaticSite.Disk.Basic
import StaticSite.Toml.Decode

namespace StaticSite

def Datum.count? : Datum → Option Nat
  | .scalar { value := some (.number (.int n _)), .. } => if n < 0 then none else some n.toNat
  | _ => none

structure ConfigReading (δ : Type) where
  fields? : List String → δ → Option (List (String × δ))
  text? : δ → Option String
  maybeText? : δ → Option (Option String)
  texts? : δ → Option (List String)
  count? : δ → Option Nat

namespace ConfigReading

variable {δ : Type}

def field? (fields : List (String × δ)) (name : String) (read : δ → Option α) (value : α) :
    Option α :=
  match fields.lookup name with
  | none => some value
  | some d => read d

def paths? (r : ConfigReading δ) (d : δ) : Option ProjectPaths := do
  let fields ← r.fields?
    ["tokens", "pages", "fragments", "styles", "utilities", "fonts", "assets", "output"] d
  let path (name : String) (value : Path) :=
    field? fields name (fun d => (r.text? d).map .ofText) value
  let base : ProjectPaths := {}
  return {
    tokens := ← path "tokens" base.tokens
    pages := ← path "pages" base.pages
    fragments := ←
      field? fields "fragments" (fun d => (r.texts? d).map (List.map .ofText)) base.fragments
    styles := ← path "styles" base.styles
    utilities := ← path "utilities" base.utilities
    fonts := ← path "fonts" base.fonts
    assets := ← path "assets" base.assets
    output := ← path "output" base.output }

def project? (r : ConfigReading δ) (root : Path) (d : δ) : Option Config := do
  let fields ← r.fields? ["name", "lang", "description"] d
  let base : Config := { name := ← (fields.lookup "name").bind r.text?, root }
  return { base with
    lang := ← field? fields "lang" r.text? base.lang
    description := ← field? fields "description" r.maybeText? none }

def build? (r : ConfigReading δ) (c : Config) (d : δ) : Option Config := do
  let fields ← r.fields? ["stylesheet", "token_prefix"] d
  return { c with
    stylesheet := ← field? fields "stylesheet" r.text? c.stylesheet
    tokenLead := ← field? fields "token_prefix" r.maybeText? none }

def watch? (r : ConfigReading δ) (c : Config) (d : δ) : Option Config := do
  let fields ← r.fields? ["debounce_ms"] d
  return { c with debounce := ← field? fields "debounce_ms" r.count? c.debounce }

def config? (r : ConfigReading δ) (root : Path) (d : δ) : Option Config := do
  let fields ← r.fields? ["project", "paths", "build", "watch"] d
  let c ← (fields.lookup "project").bind (r.project? root)
  let c := { c with paths := ← field? fields "paths" r.paths? {} }
  let c ← field? fields "build" (r.build? c) c
  field? fields "watch" (r.watch? c) c

end ConfigReading

namespace Config

def fileReading : ConfigReading Datum where
  fields? names d := d.fields? names false .lenient
  text? := Datum.text?
  maybeText? := Datum.optional? Datum.text?
  texts? := Datum.texts?
  count? := Datum.count?

def rootOf (file : Path) : Path :=
  match file.parent? with
  | some p => if p.isEmpty then .ofText "." else p
  | none => .ofText "."

def load (d : Disk) (file : Path) : Except LoadError Config := do
  if !d.contains file then throw (.config (.notFound file))
  let text ← (d.readText file).mapError .disk
  match Toml.datum? text >>= fileReading.config? (rootOf file) with
  | none => throw (.config (.malformed file))
  | some c =>
    c.validate d.cwd
    return c

end Config

end StaticSite
