import StaticSite.Text.Space
import StaticSite.Text.Ticked
import StaticSite.Token.Basic

namespace StaticSite

structure TokenStyle where
  lead : Option String := none

structure TokenValueFault where
  name : String
  value : String
  deriving DecidableEq

def TokenValueFault.message (f : TokenValueFault) : String :=
  "token " ++ Text.ticked f.name ++ " has an invalid value " ++ Text.ticked f.value

namespace TokenStyle

def ofLead (lead : Option String) : TokenStyle := ⟨lead.filter fun s => !Text.isBlank s⟩

def property (st : TokenStyle) (t : Token) : String :=
  let lead := match st.lead with
    | some s => s ++ "-"
    | none => ""
  "--" ++ lead ++ t.category ++ "-" ++ t.name

def isBreaking (c : Char) : Bool := c = ';' || c = '{' || c = '}' || c = '\n'

def declaration (st : TokenStyle) (t : Token) : Except TokenValueFault String :=
  if t.value.toList.any isBreaking then .error ⟨st.property t, t.value⟩
  else .ok ("  " ++ st.property t ++ ": " ++ t.value ++ ";\n")

def css (st : TokenStyle) (s : TokenSet) : Except TokenValueFault String := do
  return ":root \x7b\n" ++ String.join (← s.tokens.mapM st.declaration) ++ "\x7d\n"

end TokenStyle

end StaticSite
