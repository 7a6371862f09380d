import StaticSite.Json.Text
import StaticSite.Text.Kebab
import StaticSite.Text.Ticked

namespace StaticSite

structure Token where
  category : String
  name : String
  value : String
  deriving DecidableEq

structure TokenGroup where
  name : String
  tokens : List Token
  deriving DecidableEq

structure TokenSet where
  groups : List TokenGroup := []
  deriving DecidableEq

inductive TokenFault
  | notTable
  | categoryNotTable (category : String)
  | noValue (key : String)
  | clash (first second flat : String)
  deriving DecidableEq

def TokenFault.message : TokenFault → String
  | notTable => "token file must be a table of categories"
  | categoryNotTable category => "token category " ++ Text.ticked category ++ " must be a table"
  | noValue key => "token " ++ Text.ticked key ++ " has no value"
  | clash first second flat =>
    "token keys " ++ Text.ticked first ++ " and " ++ Text.ticked second ++ " both become " ++
      Text.ticked flat

namespace TokenSet

def tokens (s : TokenSet) : List Token := s.groups.flatMap TokenGroup.tokens

def size (s : TokenSet) : Nat := s.tokens.length

def get? (s : TokenSet) (category name : String) : Option String :=
  (s.tokens.find? fun t => t.category = category && t.name = name).map Token.value

end TokenSet

end StaticSite
