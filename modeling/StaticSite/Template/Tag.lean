import StaticSite.Fragment.Name
import StaticSite.Number.Literal
import StaticSite.Template.Error
import StaticSite.Text.Cut
import StaticSite.Text.Space

namespace StaticSite.Template

def isQuote (c : Char) : Bool := c = '"' || c = '\x27'

/-- The words of a content; between quotes white space does not end a word and a backslash takes the
meaning from the character after it. `none` if a quote stays open. -/
def wordsFrom (word : List Char) (quote : Option Char) (escaped : Bool) :
    List Char → Option (List String)
  | [] =>
    if quote.isSome then none
    else some (if word.isEmpty then [] else [String.ofList word.reverse])
  | c :: cs =>
    match quote with
    | some q =>
      if escaped then wordsFrom (c :: word) quote false cs
      else if c = '\\' then wordsFrom (c :: word) quote true cs
      else wordsFrom (c :: word) (if c = q then none else quote) false cs
    | none =>
      if isQuote c then wordsFrom (c :: word) (some c) false cs
      else if Text.isSpace c then
        if word.isEmpty then wordsFrom [] none false cs
        else (wordsFrom [] none false cs).map (String.ofList word.reverse :: ·)
      else wordsFrom (c :: word) none false cs

def words (content : String) : Except SyntaxFault (List String) :=
  match wordsFrom [] none false content.toList with
  | some ws => .ok ws
  | none => .error (.openQuote content)

def isSegment (s : List Char) : Bool :=
  !s.isEmpty && s.all fun c => c.isAlphanum || c = '_' || c = '-'

def segments? (root : Root) (text : String) (path : List Char) : Option Reference :=
  let segments := Text.pieces '.' path
  if segments.all isSegment then some ⟨text, root, segments.map String.ofList⟩ else none

def reference? (text : String) : Option Reference :=
  match text with
  | "@index" => some ⟨text, .index, []⟩
  | "@key" => some ⟨text, .key, []⟩
  | "@first" => some ⟨text, .first, []⟩
  | "@last" => some ⟨text, .last, []⟩
  | "this" => some ⟨text, .this, []⟩
  | _ =>
    match text.toList with
    | 't' :: 'h' :: 'i' :: 's' :: '.' :: path => segments? .this text path
    | path => segments? .scope text path

def reference (text : String) : Except SyntaxFault Reference :=
  match reference? text with
  | some r => .ok r
  | none => .error (.badReference text)

def output (content : String) : Except SyntaxFault Output :=
  match content with
  | "children" => .ok .children
  | "@classes" => .ok .classes
  | "@a11y" => .ok .accessible
  | "@attrs" => .ok .attributes
  | _ => (reference content).map .reference

def blockReference (content : String) : Except SyntaxFault Reference := do
  match ← words content with
  | [] => .error .noReference
  | [word] => if word.toList.contains '=' then .error (.notOneReference content) else reference word
  | _ => .error (.notOneReference content)

def assignment? : List Char → Option (List Char × List Char)
  | [] => none
  | c :: cs =>
    if c = '=' then some ([], cs)
    else if isQuote c then none
    else (assignment? cs).map fun r => (c :: r.1, r.2)

/-- A character after a backslash stands for itself; a backslash at the end for nothing. -/
def unescape : List Char → List Char
  | [] => []
  | '\\' :: c :: cs => c :: unescape cs
  | c :: cs => if c = '\\' then unescape cs else c :: unescape cs

def unquote? : List Char → Option String
  | [] => none
  | q :: cs =>
    if isQuote q && cs.getLast? = some q then some (String.ofList (unescape cs.dropLast)) else none

def literal? (value : String) : Option Value :=
  match unquote? value.toList with
  | some s => some (.string s)
  | none =>
    match value with
    | "true" => some (.bool true)
    | "false" => some (.bool false)
    | "null" => some .null
    | _ => (Number.ofLiteral? value.toList).map .number

def argument (value : String) : Except SyntaxFault Argument :=
  match literal? value with
  | some v => .ok (.literal v)
  | none => (reference value).map .reference

def addWord (c : Call) (word : String) : Except SyntaxFault Call :=
  match assignment? word.toList with
  | some (key, value) => do
    let key := String.ofList key
    if key = "" || c.args.any fun a => a.1 = key then .error (.badArgument key)
    else return { c with args := c.args ++ [(key, ← argument (String.ofList value))] }
  | none =>
    if c.base.isNone && c.args.isEmpty then do return { c with base := some (← reference word) }
    else .error (.latePositional word)

def call (content : String) : Except SyntaxFault Call := do
  match ← words content with
  | [] => .error .noName
  | name :: rest =>
    if isFragmentName name then rest.foldlM addWord ⟨name, none, []⟩ else .error (.badName name)

end StaticSite.Template
