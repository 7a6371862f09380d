namespace StaticSite.Text

/-- An underscore or a space becomes a hyphen, an ASCII capital its small letter, with a hyphen
before it if a small letter or a digit comes just before (`afterSmall`). -/
def kebabChars (afterSmall : Bool) : List Char → List Char
  | [] => []
  | c :: cs =>
    if c = '_' || c = ' ' then '-' :: kebabChars false cs
    else if c.isUpper then
      let rest := c.toLower :: kebabChars false cs
      if afterSmall then '-' :: rest else rest
    else c :: kebabChars (c.isLower || c.isDigit) cs

def kebab (name : String) : String := String.ofList (kebabChars false name.toList)

end StaticSite.Text
