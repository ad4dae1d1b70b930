/-! Character classes of the markup and of the expressions inside it. All of them are
ASCII classes: other characters only ever stand in text and in string literals, where
they are copied and never classified. Trimming alone goes by what Unicode calls white space. -/

namespace HtmlTemplate

namespace CharClass

/-- Space or tab. -/
def isSpacing (c : Char) : Bool := c == ' ' || c == '\t'

/-- A character that ends a line. -/
def isLineEnd (c : Char) : Bool := c == '\n' || c == '\r'

def isWhitespace (c : Char) : Bool := isSpacing c || isLineEnd c

def isDigit (c : Char) : Bool := '0' ≤ c && c ≤ '9'

def isLatin (c : Char) : Bool := ('a' ≤ c && c ≤ 'z') || ('A' ≤ c && c ≤ 'Z')

def isAlphanumeric (c : Char) : Bool := isLatin c || isDigit c

/-- Variable, member and key names. -/
def isIdent (c : Char) : Bool := isAlphanumeric c || c == '_'

/-- Tag names and the class and id shorthand. -/
def isTagWord (c : Char) : Bool := isAlphanumeric c || c == '-' || c == '_'

/-- Bare attribute names, wide enough for bindings such as @click, :value and (event). -/
def isAttrWord (c : Char) : Bool :=
  isAlphanumeric c || c == '@' || c == '-' || c == '_' || c == ':' || c == '(' || c == ')' ||
    c == '.'

def isHexDigit (c : Char) : Bool :=
  isDigit c || ('a' ≤ c && c ≤ 'f') || ('A' ≤ c && c ≤ 'F')

theorem ascii_of_isSpacing {char : Char} (spacing : isSpacing char = true) : char.toNat < 128 := by
  rcases Bool.or_eq_true_iff.mp spacing with same | same <;>
    exact eq_of_beq same ▸ (by decide)

theorem ascii_of_isLineEnd {char : Char} (ends : isLineEnd char = true) : char.toNat < 128 := by
  rcases Bool.or_eq_true_iff.mp ends with same | same <;>
    exact eq_of_beq same ▸ (by decide)

theorem ascii_of_isWhitespace {char : Char} (blank : isWhitespace char = true) : char.toNat < 128 :=
  (Bool.or_eq_true_iff.mp blank).elim ascii_of_isSpacing ascii_of_isLineEnd

theorem ascii_of_le {char last : Char} (before : char ≤ last) (ascii : last.toNat < 128) : char.toNat < 128 :=
  Nat.lt_of_le_of_lt before ascii

theorem ascii_of_isIdent {char : Char} (ident : isIdent char = true) : char.toNat < 128 := by
  simp only [isIdent, isAlphanumeric, isLatin, isDigit, Bool.or_eq_true, Bool.and_eq_true, decide_eq_true_eq,
    beq_iff_eq] at ident
  rcases ident with ((⟨-, small⟩ | ⟨-, capital⟩) | ⟨-, digit⟩) | rfl
  · exact ascii_of_le small (by decide)
  · exact ascii_of_le capital (by decide)
  · exact ascii_of_le digit (by decide)
  · decide

end CharClass

/-! White space. -/

namespace Blank

/-- The Unicode property White_Space. -/
def isBlank (c : Char) : Bool :=
  let code := c.toNat
  (9 ≤ code && code ≤ 13) || code == 0x20 || code == 0x85 || code == 0xA0 || code == 0x1680 ||
    (0x2000 ≤ code && code ≤ 0x200A) || code == 0x2028 || code == 0x2029 || code == 0x202F ||
    code == 0x205F || code == 0x3000

/-- Removes the characters of a class from both ends. -/
def stripBoth (class? : Char → Bool) (text : List Char) : List Char :=
  ((text.dropWhile class?).reverse.dropWhile class?).reverse

/-- Removes the characters of a class from the end. -/
def stripEnd (class? : Char → Bool) (text : List Char) : List Char :=
  (text.reverse.dropWhile class?).reverse

def trim (text : String) : String := String.ofList (stripBoth isBlank text.toList)

end Blank

end HtmlTemplate
