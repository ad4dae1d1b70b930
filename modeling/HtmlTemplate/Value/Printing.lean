import HtmlTemplate.Value.Coercion
import HtmlTemplate.Text.Escaping

/-! Values written into the output of a template. -/

namespace HtmlTemplate.Value

/-- Output differs from text in null alone, which is printed by its name. -/
def printed : Value → String
  | null => "null"
  | value => value.toText

def escapeIf (escape : Bool) (content : String) : String :=
  if escape then Entities.escape content else content

/-- The text of an output. -/
def output (value : Value) (escape : Bool) : String := escapeIf escape value.printed

/-- The entries of a dictionary as style declarations. -/
def styleText (entries : List (String × Value)) : String :=
  String.join (entries.map fun (name, value) => name ++ ":" ++ value.toText ++ ";")

/-- The text of an attribute value: the elements of an array with spaces between them, a
dictionary in a style attribute as declarations. -/
def attributeText (name : String) : Value → String
  | array items => " ".intercalate (items.map toText)
  | dict entries => if name = "style" then styleText entries else (dict entries).toText
  | value => value.toText

/-- An attribute with a blank before it. True is written as the bare name; false and null
leave the attribute out. -/
def attributeMarkup (name : String) (value : Value) (escape : Bool) : String :=
  match value with
  | null | bool false => ""
  | bool true => " " ++ name
  | value => " " ++ name ++ "=\"" ++ escapeIf escape (attributeText name value) ++ "\""

/-- One escaped attribute for each entry of a dictionary; nothing for other values. -/
def attributesMarkup : Value → String
  | dict entries => String.join (entries.map fun (name, value) => attributeMarkup name value true)
  | _ => ""

end HtmlTemplate.Value
