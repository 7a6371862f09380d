import StaticSite.Template.Error
import StaticSite.Text.Cut
import StaticSite.Text.Space

/-! The lexemes of a template: runs of text and tags. An automaton takes one character at a time. -/

namespace StaticSite.Template

inductive Keyword
  | whenTrue
  | whenFalse
  | each
  deriving DecidableEq

def Keyword.text : Keyword → String
  | whenTrue => "if"
  | whenFalse => "unless"
  | each => "each"

inductive Lexeme
  | text (s : String)
  | output (content : String) (raw : Bool) (pos : Position)
  | openBlock (keyword : Keyword) (content : String) (pos : Position)
  | openCall (content : String) (pos : Position)
  | call (content : String) (pos : Position)
  | otherwise (pos : Position)
  | close (name : String) (pos : Position)
  deriving DecidableEq

inductive Enclosed
  | comment
  | longComment
  | raw
  | tag
  deriving DecidableEq

def Enclosed.mark : Enclosed → List Char
  | comment | tag => ['}', '}']
  | longComment => ['-', '-', '}', '}']
  | raw => ['}', '}', '}']

def Enclosed.fault : Enclosed → SyntaxFault
  | comment | longComment => .unclosedComment
  | raw => .unclosedRaw
  | tag => .unclosedTag

/-- Where the automaton stands: in text, there after a backslash, after a backslash and a brace, or
after a brace; after two braces, and there after `!` or `!-`; or between braces, with what was read
there, last first. `start` is where the first brace stands. -/
inductive Mode
  | text
  | escape
  | escapeBrace
  | brace (start : Position)
  | opened (start : Position)
  | bang (start : Position)
  | bangDash (start : Position)
  | inside (what : Enclosed) (start : Position) (rev : List Char)
  deriving DecidableEq

structure Lexer where
  pos : Position
  literal : List Char := []
  done : List Lexeme := []
  mode : Mode := .text

namespace Lexer

def literalBraces : List Char := ['{', '{']

def put (l : Lexer) (cs : List Char) : Lexer :=
  { l with literal := cs.reverse ++ l.literal, mode := .text }

def inText (l : Lexer) (c : Char) : Lexer :=
  if c = '\\' then { l with mode := .escape }
  else if c = '{' then { l with mode := .brace l.pos }
  else l.put [c]

def flush (l : Lexer) : List Lexeme :=
  if l.literal.isEmpty then l.done else .text (String.ofList l.literal.reverse) :: l.done

def emit (l : Lexer) (x : Lexeme) : Lexer :=
  { l with literal := [], done := x :: l.flush, mode := .text }

def block (pos : Position) (content : List Char) : Except SyntaxFault Lexeme :=
  match content with
  | '>' :: call => .ok (.openCall (String.ofList (Text.trimChars call)) pos)
  | _ =>
    let (word, rest) := (Text.cutWhere Text.isSpace content).getD (content, [])
    let rest := String.ofList (Text.trimChars rest)
    match String.ofList word with
    | "if" => .ok (.openBlock .whenTrue rest pos)
    | "unless" => .ok (.openBlock .whenFalse rest pos)
    | "each" => .ok (.openBlock .each rest pos)
    | word => .error (.unknownBlock word)

def tag (pos : Position) (content : List Char) : Except SyntaxFault Lexeme :=
  match content with
  | [] => .error .emptyTag
  | '#' :: rest => block pos (Text.trimLeft rest)
  | '/' :: name => .ok (.close (String.ofList (Text.trimChars name)) pos)
  | '>' :: call => .ok (.call (String.ofList (Text.trimChars call)) pos)
  | cs =>
    let content := String.ofList cs
    .ok (if content = "else" then .otherwise pos else .output content false pos)

/-- The closing mark was read. A comment leaves the text around it in one piece. -/
def leave (l : Lexer) (what : Enclosed) (start : Position) (content : List Char) :
    Except (Position × SyntaxFault) Lexer :=
  match what with
  | .comment | .longComment => .ok { l with mode := .text }
  | .raw => .ok (l.emit (.output (String.ofList (Text.trimChars content)) true start))
  | .tag =>
    match tag start (Text.trimChars content) with
    | .ok x => .ok (l.emit x)
    | .error f => .error (start, f)

def inside (l : Lexer) (what : Enclosed) (start : Position) (rev : List Char) (c : Char) :
    Except (Position × SyntaxFault) Lexer :=
  let rev := c :: rev
  if what.mark.reverse.isPrefixOf rev then l.leave what start (rev.drop what.mark.length).reverse
  else .ok { l with mode := .inside what start rev }

def read (l : Lexer) (c : Char) : Except (Position × SyntaxFault) Lexer :=
  match l.mode with
  | .text => .ok (l.inText c)
  | .escape =>
    .ok (if c = '{' then { l with mode := .escapeBrace } else (l.put ['\\']).inText c)
  | .escapeBrace =>
    .ok (if c = '{' then l.put literalBraces else (l.put ['\\', '{']).inText c)
  | .brace start =>
    .ok (if c = '{' then { l with mode := .opened start } else (l.put ['{']).inText c)
  | .opened start =>
    if c = '!' then .ok { l with mode := .bang start }
    else if c = '{' then .ok { l with mode := .inside .raw start [] }
    else l.inside .tag start [] c
  | .bang start =>
    if c = '-' then .ok { l with mode := .bangDash start } else l.inside .comment start [] c
  | .bangDash start =>
    if c = '-' then .ok { l with mode := .inside .longComment start ['-', '-'] }
    else l.inside .comment start ['-'] c
  | .inside what start rev => l.inside what start rev c

def step (l : Lexer) (c : Char) : Except (Position × SyntaxFault) Lexer := do
  let l ← l.read c
  return { l with pos := l.pos.next c }

def finish (l : Lexer) : Except (Position × SyntaxFault) (List Lexeme) :=
  match l.mode with
  | .text => .ok l.flush.reverse
  | .escape => .ok (l.put ['\\']).flush.reverse
  | .escapeBrace => .ok (l.put ['\\', '{']).flush.reverse
  | .brace _ => .ok (l.put ['{']).flush.reverse
  | .opened start => .error (start, .unclosedTag)
  | .bang start | .bangDash start => .error (start, .unclosedComment)
  | .inside what start _ => .error (start, what.fault)

end Lexer

def lexemes (firstLine : Nat) (text : List Char) :
    Except (Position × SyntaxFault) (List Lexeme) := do
  (← text.foldlM Lexer.step { pos := ⟨firstLine, 1⟩ }).finish

end StaticSite.Template
