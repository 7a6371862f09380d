namespace StaticSite.Yaml

inductive Token
  | version
  | tagHandle (handle uri : String)
  | documentStart
  | documentEnd
  | blockSequence
  | blockMapping
  | blockEnd
  | flowSequence
  | flowSequenceEnd
  | flowMapping
  | flowMappingEnd
  | blockEntry
  | flowEntry
  | key
  | value
  | alias (name : String)
  | anchor (name : String)
  | tag (handle suffix : String)
  | scalar (text : String) (plain : Bool)
  deriving DecidableEq

/-- A token that may turn out to be a key: the number of tokens before it and the place where it
starts; a `required` one must be followed by a colon. -/
structure KeyStart where
  required : Bool
  before : Nat
  index : Nat
  line : Nat
  column : Nat

end StaticSite.Yaml
