import StaticSite.Page.Tree
import StaticSite.Path.Extension

namespace StaticSite

structure PageSource where
  relative : Path
  decl : PageDecl

def PageSource.output (p : PageSource) : Path := p.relative.withExtension "html"

inductive PageError
  | disk (e : DiskError)
  | load (e : LoadError)
  | resolve (page : Path) (address : List Nat) (e : FragmentError)
  | render (page : Path) (e : RenderError)
  | collision (first second output : Path)
  deriving DecidableEq

namespace PageError

def message : PageError → String
  | disk e => e.report
  | load e => e.message
  | resolve page address e => page.text ++ ": " ++ addressText address ++ ": " ++ e.message
  | render page e => page.text ++ ": " ++ e.message
  | collision first second output =>
    first.text ++ " and " ++ second.text ++ " both render to " ++ output.text

def causes : PageError → List String
  | disk e => [e.message]
  | load e => e.causes
  | resolve _ _ e => e.message :: e.causes
  | render _ e => [e.message]
  | collision _ _ _ => []

end PageError

structure Shell where
  project : String
  lang : String
  description : Option String := none
  stylesheet : String

namespace Shell

def isName : Component → Bool
  | .name _ => true
  | _ => false

def href (s : Shell) (output : Path) : String :=
  let depth := match output.parent? with
    | some p => (p.components.filter isName).length
    | none => 0
  String.join (List.replicate depth "../") ++ s.stylesheet

/-- The project's name follows the title unless that says it already. -/
def title (s : Shell) (decl : PageDecl) : String :=
  if decl.title = s.project || s.project.isEmpty then decl.title
  else decl.title ++ " | " ++ s.project

def descriptionTag : Option String → String
  | some d => "<meta name=\"description\" content=\"" ++ Html.escape d ++ "\">\n"
  | none => ""

def endLine (body : String) : String :=
  if body.toList.getLast? = some '\n' then body else body ++ "\n"

def document (s : Shell) (p : PageSource) (body : String) : String :=
  "<!DOCTYPE html>\n" ++
  "<html lang=\"" ++ Html.escape (p.decl.lang.getD s.lang) ++ "\">\n" ++
  "<head>\n<meta charset=\"utf-8\">\n" ++
  "<meta name=\"viewport\" content=\"width=device-width, initial-scale=1\">\n" ++
  "<title>" ++ Html.escape (s.title p.decl) ++ "</title>\n" ++
  descriptionTag (p.decl.description.or s.description) ++
  "<link rel=\"stylesheet\" href=\"" ++ Html.escape (s.href p.output) ++ "\">\n" ++
  "</head>\n<body>\n" ++ endLine body ++ "</body>\n</html>\n"

end Shell

/-- Whether the documents of pages are all in different places; `before` are pages whose documents
are. Places are told apart by their components. -/
def checkOutputs (before : List PageSource) : List PageSource → Except PageError Unit
  | [] => .ok ()
  | p :: ps =>
    match before.find? fun q => q.output.components = p.output.components with
    | some q => .error (.collision q.relative p.relative p.output)
    | none => checkOutputs (before ++ [p]) ps

def PageSource.resolve (r : Registry) (p : PageSource) : Except PageError (PageTree r) :=
  (PageTree.resolve r [] p.decl.root).mapError fun e => .resolve p.relative e.1 e.2

def Shell.render (s : Shell) {r : Registry} (p : PageSource) (t : PageTree r) :
    Except PageError (Path × String) :=
  match (t.render ()).result with
  | .ok body => .ok (p.output, s.document p body)
  | .error e => .error (.render p.relative e)

/-- Pages are rendered side by side. Of those that fail, this is the one whose error is told: of
`n + 1` failures, the one at position `first n`. -/
structure Race where
  first (n : Nat) : Fin (n + 1)

namespace Race

def inOrder : Race where
  first _ := 0

def failures (xs : List (Except ε α)) : List ε :=
  xs.filterMap fun
    | .ok _ => none
    | .error e => some e

def gather (race : Race) (xs : List (Except ε α)) : Except ε (List α) :=
  match failures xs with
  | [] => xs.mapM id
  | e :: es => .error ((e :: es).get (race.first es.length))

end Race

/-- The documents of pages, in their order. No page is rendered unless all are resolved. -/
def Shell.renderAll (s : Shell) (r : Registry) (pages : List PageSource) (race : Race := .inOrder) :
    Except PageError (List (Path × String)) := do
  checkOutputs [] pages
  let trees ← pages.mapM (PageSource.resolve r)
  race.gather ((pages.zip trees).map fun x => s.render x.1 x.2)

end StaticSite
