import StaticSite.Datum.Basic

namespace StaticSite.Toml

inductive Item
  | string (s : String)
  | integer (n : Int) (exact : Number.IsExact n)
  | float (x : Number.Real)
  | boolean (b : Bool)
  | datetime (text : String)
  | array (items : List Item)
  | table (members : List (String × Item))

def datetimeKey : String := "$__toml_private_datetime"

mutual

def Item.datum : Item → Datum
  | .string s => .ofText s
  | .integer n h => .scalar { value := some (.number (.int n h)), text := none }
  | .float x => .scalar { value := some (Value.ofReal x), text := none }
  | .boolean b => .scalar { value := some (.bool b), text := none }
  | .datetime s => .map [(datetimeKey, .ofText s)]
  | .array items => .list (itemData items)
  | .table members => .map (memberData members)

def itemData : List Item → List Datum
  | [] => []
  | i :: is => i.datum :: itemData is

def memberData : List (String × Item) → List (String × Datum)
  | [] => []
  | (k, i) :: is => (k, i.datum) :: memberData is

end

end StaticSite.Toml
