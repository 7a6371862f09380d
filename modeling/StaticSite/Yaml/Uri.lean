import StaticSite.Text.Hex
import StaticSite.Text.Utf8
import StaticSite.Yaml.Cursor

namespace StaticSite.Yaml

def isWordChar (c : Char) : Bool := c.isAlphanum || c = '_' || c = '-'

def isUriChar (c : Char) : Bool :=
  isWordChar c || ";/?:@&=+$.!~*'()%".toList.contains c

def isPlainUriChar (c : Char) : Bool := isUriChar c || c = ',' || c = '[' || c = ']'

def following? (b : Nat) : Option Nat :=
  if b < 0x80 then some 0
  else if 0xC0 ≤ b ∧ b < 0xE0 then some 1
  else if 0xE0 ≤ b ∧ b < 0xF0 then some 2
  else if 0xF0 ≤ b ∧ b < 0xF8 then some 3
  else none

def bytesOf? : Nat → List Char → Option (List UInt8)
  | 0, [] => some []
  | missing, '%' :: a :: b :: cs => do
    let n := (← Text.hexValue? a) * 16 + (← Text.hexValue? b)
    let missing ← match missing with
      | 0 => following? n
      | missing + 1 => if 0x80 ≤ n ∧ n < 0xC0 then some missing else none
    return UInt8.ofNat n :: (← bytesOf? missing cs)
  | 0, c :: cs => if c = '%' then none else do return UInt8.ofNat c.toNat :: (← bytesOf? 0 cs)
  | _ + 1, _ => none

def unescape? (cs : List Char) : Option String := (bytesOf? 0 cs).map Text.ofBytes

example : unescape? "%69nt".toList = some "int" ∧ unescape? "%c3%a9".toList = some "é" ∧
    unescape? "%zz".toList = none := by decide +kernel

namespace Cursor

def versionNumber? (cur : Cursor) : Option (Nat × Cursor) :=
  let (ds, cur) := cur.takeWhile Char.isDigit
  if ds.isEmpty || ds.length > 9 then none
  else some (ds.foldl (fun n c => n * 10 + (c.toNat - '0'.toNat)) 0, cur)

def handle? (cur : Cursor) : Option (String × Cursor) :=
  if !cur.isChar '!' then none
  else
    let (word, cur) := cur.skip.takeWhile isWordChar
    if cur.isChar '!' then some (String.ofList ('!' :: (word ++ ['!'])), cur.skip)
    else if word.isEmpty then some ("!", cur)
    else none

end Cursor

end StaticSite.Yaml
