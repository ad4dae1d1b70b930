import HtmlTemplate.Value.Basic
import HtmlTemplate.Decimal.Layout
import HtmlTemplate.Decimal.Reading
import HtmlTemplate.Text.CharClass
import HtmlTemplate.Text.Quoted

/-! Values read as truth values, numbers and texts. -/

namespace HtmlTemplate.Value

/-- Guards: numbers hold unless they are zero or not a number, texts and containers unless
they are empty. -/
def toBool : Value → Bool
  | null => false
  | bool flag => flag
  | int number => number != 0
  | float number => number != 0 && !number.isNaN
  | text content => !content.isEmpty
  | array items => !items.isEmpty
  | dict entries => !entries.isEmpty

def ofBool (flag : Bool) : Int64 := if flag then 1 else 0

/-- The text without the blanks around it. -/
def trimmed (content : String) : List Char := Blank.stripBoth Blank.isBlank content.toList

/-- A text as an integer: an integer of 64 bits, else a float cut to one, else zero. -/
def textToInt (content : String) : Int64 :=
  match Decimal.readInt64? (trimmed content) with
  | some number => number
  | none => match Decimal.readFloat? (trimmed content) with
    | some number => number.toInt64
    | none => 0

/-- Floats are cut towards zero and to the range of integers. -/
def toInt : Value → Int64
  | bool flag => ofBool flag
  | int number => number
  | float number => number.toInt64
  | text content => textToInt content
  | null | array _ | dict _ => 0

def toFloat : Value → Float
  | bool flag => if flag then 1 else 0
  | int number => number.toFloat
  | float number => number
  | text content => (Decimal.readFloat? (trimmed content)).getD 0
  | null | array _ | dict _ => 0

/-- Numbers that are not finite have no form in JSON. -/
def floatJson (number : Float) : String :=
  if number.isFinite then Decimal.Layout.json.text number else "null"

mutual

/-- The compact JSON text of a value. -/
def toJson : Value → String
  | null => "null"
  | bool flag => if flag then "true" else "false"
  | int number => toString number.toInt
  | float number => floatJson number
  | text content => Quoted.json content
  | array items => "[" ++ ",".intercalate (itemsJson items) ++ "]"
  | dict entries => "\x7b" ++ ",".intercalate (entriesJson entries) ++ "\x7d"

def itemsJson : List Value → List String
  | [] => []
  | value :: rest => toJson value :: itemsJson rest

def entriesJson : List (String × Value) → List String
  | [] => []
  | (name, value) :: rest => (Quoted.json name ++ ":" ++ toJson value) :: entriesJson rest

end

/-- The text that stands for a value in concatenations, keys and attributes: nothing for
null, JSON for containers. -/
def toText : Value → String
  | null => ""
  | bool flag => if flag then "true" else "false"
  | int number => toString number.toInt
  | float number => Decimal.plainText number
  | text content => content
  | value => value.toJson

end HtmlTemplate.Value
