/-! Texts as they may stand in markup: the characters that mean something there are written as entities. -/

namespace HtmlTemplate.Entities

/-- Whether a character means something in markup, inside or outside of attribute values. -/
def isSpecial (char : Char) : Bool :=
  char == '&' || char == '<' || char == '>' || char == '"' || char == '\''

/-- A character as it may stand in markup, inside and outside of attribute values. -/
def escapeChar (char : Char) : List Char :=
  if char == '&' then ['&', 'a', 'm', 'p', ';']
  else if char == '<' then ['&', 'l', 't', ';']
  else if char == '>' then ['&', 'g', 't', ';']
  else if char == '"' then ['&', 'q', 'u', 'o', 't', ';']
  else if char == '\'' then ['&', '#', '3', '9', ';']
  else [char]

def escapeChars (text : List Char) : List Char := text.flatMap escapeChar

/-- A text without special characters is not written anew. -/
def escape (text : String) : String :=
  if text.toList.any isSpecial then String.ofList (escapeChars text.toList) else text

/-- Reads entities back; any other ampersand stands for itself. -/
def decodeChars : List Char → List Char
  | '&' :: 'a' :: 'm' :: 'p' :: ';' :: text => '&' :: decodeChars text
  | '&' :: 'l' :: 't' :: ';' :: text => '<' :: decodeChars text
  | '&' :: 'g' :: 't' :: ';' :: text => '>' :: decodeChars text
  | '&' :: 'q' :: 'u' :: 'o' :: 't' :: ';' :: text => '"' :: decodeChars text
  | '&' :: '#' :: '3' :: '9' :: ';' :: text => '\'' :: decodeChars text
  | char :: text => char :: decodeChars text
  | [] => []

def decode (text : String) : String := String.ofList (decodeChars text.toList)

theorem escapeChars_append (first second : List Char) :
    escapeChars (first ++ second) = escapeChars first ++ escapeChars second := by
  simp [escapeChars]

theorem escapeChar_plain {char : Char} (plain : isSpecial char = false) : escapeChar char = [char] := by
  simp only [isSpecial, Bool.or_eq_false_iff] at plain
  simp [escapeChar, plain]

theorem escapeChars_plain {text : List Char} (plain : text.any isSpecial = false) :
    escapeChars text = text := by
  induction text with
  | nil => rfl
  | cons char rest step =>
    obtain ⟨first, others⟩ := Bool.or_eq_false_iff.mp plain
    rw [escapeChars, List.flatMap_cons, escapeChar_plain first]
    exact congrArg (char :: ·) (step others)

/-- A text that is left as it is would be written just so. -/
theorem toList_escape (text : String) : (escape text).toList = escapeChars text.toList := by
  unfold escape
  cases special : text.toList.any isSpecial with
  | true => simp
  | false => simp [escapeChars_plain special]

end HtmlTemplate.Entities
