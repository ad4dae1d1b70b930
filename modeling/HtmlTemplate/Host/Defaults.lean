import HtmlTemplate.Context.Basic
import HtmlTemplate.Text.CharClass
import HtmlTemplate.Text.Span

/-! The functions. -/

namespace HtmlTemplate

namespace Percent

def upperHexDigit (number : Nat) : Char :=
  if number < 10 then Char.ofNat ('0'.toNat + number) else Char.ofNat ('A'.toNat + number - 10)

/-- Characters that stand for themselves in every encoding. -/
def isUnreserved (char : Char) : Bool :=
  CharClass.isAlphanumeric char || char == '-' || char == '_' || char == '.' || char == '~'

def encodeByte (byte : UInt8) : List Char :=
  ['%', upperHexDigit (byte.toNat / 16), upperHexDigit (byte.toNat % 16)]

/-- The bytes of a text in UTF-8. -/
def bytes (text : List Char) : List UInt8 := text.flatMap String.utf8EncodeChar

/-- Whether a byte is an ASCII character of a class. -/
def isKept (kept : Char → Bool) (byte : UInt8) : Bool := byte < 128 && kept (Char.ofNat byte.toNat)

/-- A text byte by byte. A byte that is kept stands for itself. -/
def encodeBytes (kept : Char → Bool) (text : List Char) : List Char :=
  (bytes text).flatMap fun byte => if isKept kept byte then [Char.ofNat byte.toNat] else encodeByte byte

/-- Encodes every byte that is not an unreserved character. -/
def encode (text : List Char) : List Char := encodeBytes isUnreserved text

/-- The byte offset of the first character of a class. -/
def firstOffset? (class? : Char → Bool) : List Char → Option Nat
  | [] => none
  | char :: text => if class? char then some 0 else (firstOffset? class? text).map (char.utf8Size + ·)

theorem length_lt_of_dropBytes? {count : Nat} {text rest : List Char}
    (dropped : dropBytes? (count + 1) text = some rest) : rest.length < text.length := by
  induction text generalizing count with
  | nil => cases dropped
  | cons char text step =>
    rw [dropBytes?] at dropped
    split at dropped
    · cases left : count + 1 - char.utf8Size with
      | zero =>
        rw [left, dropBytes?] at dropped
        cases dropped
        exact Nat.lt_succ_self _
      | succ more =>
        rw [left] at dropped
        exact Nat.lt_succ_of_lt (step dropped)
    · cases dropped

/-- Encodes the pieces between the marks, and copies each mark as the one byte that it is. Gives nothing if
a piece or a mark would end inside of a character. -/
def encodeBetween (encode : List Char → List Char) (marks : List Char) (text : List Char) :
    Option (List Char) :=
  match firstOffset? marks.contains text with
  | none => some (encode text)
  | some offset =>
    match takeBytes? offset text, sliceBytes? text offset (offset + 1),
      _dropped : dropBytes? (offset + 1) text with
    | some piece, some mark, some rest =>
      (encodeBetween encode marks rest).map fun more => encode piece ++ mark ++ more
    | _, _, _ => none
termination_by text.length
decreasing_by exact length_lt_of_dropBytes? _dropped

/-- Marks that may stand in one component of an address. -/
def componentMarks : List Char := ['!', '*', '\'', '(', ')']

/-- Marks that may stand in a whole address. -/
def addressMarks : List Char :=
  componentMarks ++ ['#', ';', ',', '/', '?', ':', '@', '&', '=', '+', '$']

/-- A text with its marks as they are. The marks are ASCII, so that no character is cut. -/
def encodeKeeping (encode : List Char → List Char) (marks : List Char) (text : String) : String :=
  String.ofList ((encodeBetween encode marks text.toList).getD [])

end Percent

/-! The functions that every host can lend. -/

namespace Host

/-- Encodes a text if it is the only argument; for anything else the result is null. -/
def encoding (encode : String → String) : HostFunction
  | _, [.text content] => .ok (.text (encode content))
  | _, _ => .ok .null

/-- The encoding functions, by way of one that encodes a whole text. -/
def encodings (encode : List Char → List Char) : List (String × HostFunction) :=
  [("encodeURI", encoding (Percent.encodeKeeping encode Percent.addressMarks)),
    ("encodeURIComponent", encoding (Percent.encodeKeeping encode Percent.componentMarks))]

def defaults : List (String × HostFunction) := encodings Percent.encode

end Host

end HtmlTemplate
