import StaticSite.Fragment.Basic
import StaticSite.Fragment.Error
import StaticSite.FrontMatter
import StaticSite.Template.Parse

namespace StaticSite

structure FragmentMeta where
  name : Option String := none
  tier : Tier := .atom
  depends : List String := []
  classes : Html.ClassRules := {}
  defaults : Props := []
  description : Option String := none

def Tier.ofDatum? (p : Positional) (d : Datum) : Option Tier := d.choice? p >>= Tier.ofText?

def Html.ClassRules.ofDatum? (p : Positional) (d : Datum) : Option Html.ClassRules := do
  let fields ← d.fields? ["base", "modifiers", "flags"] true p
  return {
    base := ← defaulted? (Datum.optional? Datum.text?) "base" none fields
    modifiers := ← defaulted? Datum.texts? "modifiers" [] fields
    flags := ← defaulted? Datum.texts? "flags" [] fields }

def FragmentMeta.ofDatum? (p : Positional) (d : Datum) : Option FragmentMeta := do
  let fields ← d.fields? ["name", "tier", "depends", "classes", "defaults", "description"] true p
  return {
    name := ← defaulted? (Datum.optional? Datum.text?) "name" none fields
    tier := ← defaulted? (Tier.ofDatum? p) "tier" .atom fields
    depends := ← defaulted? Datum.texts? "depends" [] fields
    classes := ← defaulted? (Html.ClassRules.ofDatum? p) "classes" {} fields
    defaults := ← defaulted? Datum.props? "defaults" [] fields
    description := ← defaulted? (Datum.optional? Datum.text?) "description" none fields }

namespace Fragment

def splitFile (content : String) (file : Path) :
    Except FragmentError (FragmentMeta × String × Nat) :=
  match FrontMatter.split? content with
  | none => .ok ({}, content, 1)
  | some fm =>
    match fm.format.decode? fm.text >>= FragmentMeta.ofDatum? fm.format.positional with
    | some m => .ok (m, fm.body, fm.bodyLine)
    | none => .error (.load (.frontMatter file))

/-- Reads a fragment file. The name is `name` unless the file gives one; the fragments that the
template uses are dependencies after those that the file declares. -/
def parse (content name : String) (file : Path) : Except FragmentError Fragment := do
  let (m, body, line) ← splitFile content file
  let t ← (Template.parse body file.text line).mapError .badSyntax
  let f : Fragment := {
    name := m.name.getD name, tier := m.tier, defaults := m.defaults, classes := m.classes
    body := .template t }
  return (f.addDependencies m.depends).addDependencies t.invocations

def nameOf (relative : Path) : String :=
  "/".intercalate ((relative.withExtension "").components.map Component.text)

end Fragment

end StaticSite
