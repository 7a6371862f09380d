import StaticSite.Value.Scalar

namespace StaticSite.Json

def hexDigit (n : Nat) : Char := Nat.digitChar n

def escapeChar (c : Char) : List Char :=
  if c = '"' then ['\\', '"']
  else if c = '\\' then ['\\', '\\']
  else if c = '\n' then ['\\', 'n']
  else if c = '\r' then ['\\', 'r']
  else if c = '\t' then ['\\', 't']
  else if c = '\x08' then ['\\', 'b']
  else if c = '\x0c' then ['\\', 'f']
  else if c.toNat < 0x20 then
    ['\\', 'u', '0', '0', hexDigit (c.toNat / 16), hexDigit (c.toNat % 16)]
  else [c]

def quoted (s : String) : List Char :=
  '"' :: (s.toList.flatMap escapeChar ++ ['"'])

mutual

def chars : Value → List Char
  | .null => ['n', 'u', 'l', 'l']
  | .bool b => (Value.boolText b).toList
  | .number n => n.text.toList
  | .string s => quoted s
  | .list items => '[' :: (itemChars items ++ [']'])
  | .map members => '{' :: (memberChars members ++ ['}'])

def itemChars : List Value → List Char
  | [] => []
  | [v] => chars v
  | v :: w :: rest => chars v ++ ',' :: itemChars (w :: rest)

def memberChars : List (String × Value) → List Char
  | [] => []
  | [(k, v)] => quoted k ++ ':' :: chars v
  | (k, v) :: m :: rest => quoted k ++ ':' :: (chars v ++ ',' :: memberChars (m :: rest))

end

def text (v : Value) : String := String.ofList (chars v)

end StaticSite.Json
