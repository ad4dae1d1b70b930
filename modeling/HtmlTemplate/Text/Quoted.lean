import HtmlTemplate.Text.Unprintable

/-! Text between quotation marks, in the two forms that the program writes: JSON strings,
and the quotes of tree dumps. -/

namespace HtmlTemplate.Quoted

def hexDigit (number : Nat) : Char :=
  if number < 10 then Char.ofNat ('0'.toNat + number) else Char.ofNat ('a'.toNat + number - 10)

/-- A number in lower-case hexadecimal, as short as it can be. -/
def hexText (number : Nat) : List Char := Nat.toDigits 16 number

/-- The escape of a control character: four hexadecimal digits. -/
def jsonCode (code : Nat) : List Char :=
  ['\\', 'u', '0', '0', hexDigit (code / 16), hexDigit (code % 16)]

/-- A character inside a JSON string. Only the quotation mark, the backslash and control
characters are escaped. -/
def jsonChar (char : Char) : List Char :=
  if char == '"' then ['\\', '"']
  else if char == '\\' then ['\\', '\\']
  else if char == '\n' then ['\\', 'n']
  else if char == '\r' then ['\\', 'r']
  else if char == '\t' then ['\\', 't']
  else if char == '\x08' then ['\\', 'b']
  else if char == '\x0c' then ['\\', 'f']
  else if char.toNat < 0x20 then jsonCode char.toNat
  else [char]

def jsonChars (text : List Char) : List Char := '"' :: (text.flatMap jsonChar ++ ['"'])

/-- A text as a JSON string. -/
def json (text : String) : String := String.ofList (jsonChars text.toList)

/-- A character inside a quote of a dump. -/
def dumpChar (char : Char) : List Char :=
  if char == '"' then ['\\', '"']
  else if char == '\\' then ['\\', '\\']
  else if char == '\n' then ['\\', 'n']
  else if char == '\r' then ['\\', 'r']
  else if char == '\t' then ['\\', 't']
  else if char == '\x00' then ['\\', '0']
  else if Unprintable.isUnprintable char then
    ['\\', 'u', '{'] ++ hexText char.toNat ++ ['}']
  else [char]

/-- A text as it is quoted in a dump. -/
def dump (text : String) : String :=
  String.ofList ('"' :: (text.toList.flatMap dumpChar ++ ['"']))

end HtmlTemplate.Quoted
