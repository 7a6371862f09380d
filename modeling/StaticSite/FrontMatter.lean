import StaticSite.Datum.Format
import StaticSite.Text.Cut
import StaticSite.Text.Space

namespace StaticSite

structure FrontMatter where
  format : DataFormat
  text : String
  body : String
  bodyLine : Nat
  deriving DecidableEq

namespace FrontMatter

def delimiters : List (DataFormat × List Char) :=
  [(.yaml, ['-', '-', '-']), (.toml, ['+', '+', '+'])]

def delimiter (f : DataFormat) : List Char := (delimiters.lookup f).getD []

def closes (mark line : List Char) : Bool := Text.trimRight line = mark

def cutLines (mark : List Char) :
    List (List Char) → Option (List (List Char) × List Char × List (List Char))
  | [] => none
  | line :: rest =>
    if closes mark line then some ([], line, rest)
    else (cutLines mark rest).map fun r => (line :: r.1, r.2)

/-- Cuts a text that starts with `mark`, after `blank` of white space. What stands behind the mark
on its line belongs to the block. -/
def cut? (format : DataFormat) (mark blank text : List Char) : Option FrontMatter :=
  match Text.lines (text.drop mark.length) with
  | first :: rest =>
    (cutLines mark rest).map fun (inside, closing, after) =>
      let block := (first :: inside).flatten
      { format
        text := String.ofList (Text.trimChars block)
        body := String.ofList after.flatten
        bodyLine := (blank ++ block ++ closing).count '\n' + 1 }
  | [] => none

def split? (content : String) : Option FrontMatter :=
  let cs := content.toList
  let blank := cs.takeWhile Text.isSpace
  let text := cs.drop blank.length
  match delimiters.find? fun d => d.2.isPrefixOf text with
  | some (format, mark) => cut? format mark blank text
  | none => none

end FrontMatter

end StaticSite
