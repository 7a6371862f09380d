namespace StaticSite

def isFragmentName (name : String) : Bool :=
  match name.toList with
  | [] => false
  | c :: cs =>
    c.isAlphanum && cs.all fun d => d.isAlphanum || d = '-' || d = '_' || d = '.' || d = '/'

end StaticSite
