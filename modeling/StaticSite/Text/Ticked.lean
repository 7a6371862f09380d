namespace StaticSite.Text

def ticked (s : String) : String := "\x60" ++ s ++ "\x60"

end StaticSite.Text
