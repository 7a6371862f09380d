import StaticSite.Template.Basic
import StaticSite.Text.Ticked

namespace StaticSite

inductive SyntaxFault
  | unclosedComment
  | unclosedRaw
  | unclosedTag
  | emptyTag
  | unknownBlock (word : String)
  | openQuote (content : String)
  | badReference (text : String)
  | noReference
  | notOneReference (content : String)
  | noName
  | badName (name : String)
  | badArgument (key : String)
  | latePositional (word : String)
  | strayElse
  | secondElse
  | strayClose (name : String)
  | crossedClose (name expected : String) (opened : Position)
  | unclosedBlock (name : String)
  deriving DecidableEq

namespace SyntaxFault

open Text (ticked)

def closeTag (name : String) : String := ticked ("\x7b\x7b/" ++ name ++ "\x7d\x7d")

def elseTag : String := ticked "\x7b\x7belse\x7d\x7d"

def message : SyntaxFault → String
  | unclosedComment => "unclosed comment"
  | unclosedRaw => "unclosed " ++ ticked "\x7b\x7b\x7b" ++ " tag"
  | unclosedTag => "unclosed " ++ ticked "\x7b\x7b" ++ " tag"
  | emptyTag => "empty tag"
  | unknownBlock word => "unknown block " ++ ticked ("#" ++ word)
  | openQuote content => "unterminated string in " ++ ticked content
  | badReference text => "invalid path " ++ ticked text
  | noReference => "block needs a path"
  | notOneReference content => "block takes a single path, got " ++ ticked content
  | noName => "invocation needs a fragment name"
  | badName name => "invalid fragment name " ++ ticked name
  | badArgument key => "invalid or repeated argument " ++ ticked key
  | latePositional word =>
    "positional argument " ++ ticked word ++ " must come first and only once"
  | strayElse =>
    elseTag ++ " outside " ++ ticked "if" ++ ", " ++ ticked "unless" ++ " or " ++ ticked "each"
  | secondElse => "duplicate " ++ elseTag
  | strayClose name => "unexpected " ++ closeTag name
  | crossedClose name expected opened =>
    closeTag name ++ " closes " ++ ticked expected ++ " opened at " ++ Nat.repr opened.line ++
      ":" ++ Nat.repr opened.column
  | unclosedBlock name => "unclosed " ++ ticked name ++ " block"

end SyntaxFault

structure SyntaxError where
  location : Location
  fault : SyntaxFault
  deriving DecidableEq

def SyntaxError.message (e : SyntaxError) : String :=
  "syntax error at " ++ e.location.text ++ ": " ++ e.fault.message

end StaticSite
