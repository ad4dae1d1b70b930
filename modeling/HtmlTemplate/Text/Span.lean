/-! Byte ranges of a text, and the part of the text that a range covers. -/

namespace HtmlTemplate

/-- Number of bytes of a text in UTF-8. -/
def byteLength : List Char → Nat
  | [] => 0
  | char :: text => char.utf8Size + byteLength text

@[simp] theorem byteLength_append (first second : List Char) :
    byteLength (first ++ second) = byteLength first + byteLength second := by
  induction first with
  | nil => simp [byteLength]
  | cons char first step => simp only [List.cons_append, byteLength, step, Nat.add_assoc]

/-- The text after its first `count` bytes, if they end on a character boundary. -/
def dropBytes? : Nat → List Char → Option (List Char)
  | 0, text => some text
  | _ + 1, [] => none
  | count + 1, char :: text =>
    if char.utf8Size ≤ count + 1 then dropBytes? (count + 1 - char.utf8Size) text else none

/-- The first `count` bytes of a text, if they end on a character boundary. -/
def takeBytes? : Nat → List Char → Option (List Char)
  | 0, _ => some []
  | _ + 1, [] => none
  | count + 1, char :: text =>
    if char.utf8Size ≤ count + 1 then
      (takeBytes? (count + 1 - char.utf8Size) text).map (char :: ·)
    else none

/-- The text between two byte offsets, if they are in order and on boundaries. -/
def sliceBytes? (text : List Char) (start stop : Nat) : Option (List Char) :=
  if start ≤ stop then dropBytes? start text >>= takeBytes? (stop - start) else none

/-- The bytes of the first character are some, and the others are those of the rest. -/
theorem byteLength_cons (char : Char) (text : List Char) :
    ∃ count, byteLength (char :: text) = count + 1 ∧ char.utf8Size ≤ count + 1 ∧
      count + 1 - char.utf8Size = byteLength text := by
  have wide := Char.utf8Size_pos char
  refine ⟨char.utf8Size - 1 + byteLength text, ?_, ?_, ?_⟩
  · simp only [byteLength]
    omega
  · omega
  · omega

theorem dropBytes?_append (before after : List Char) :
    dropBytes? (byteLength before) (before ++ after) = some after := by
  induction before with
  | nil => exact dropBytes?.eq_1 after
  | cons char before step =>
    obtain ⟨count, length, fits, rest⟩ := byteLength_cons char before
    rw [length, List.cons_append, dropBytes?, if_pos fits, rest]
    exact step

theorem takeBytes?_append (before after : List Char) :
    takeBytes? (byteLength before) (before ++ after) = some before := by
  induction before with
  | nil => exact takeBytes?.eq_1 after
  | cons char before step =>
    obtain ⟨count, length, fits, rest⟩ := byteLength_cons char before
    rw [length, List.cons_append, takeBytes?, if_pos fits, rest, step]
    rfl

/-! Characters as bytes. -/

/-- An ASCII character is one byte, its code. -/
theorem utf8EncodeChar_ascii {char : Char} (ascii : char.toNat < 128) :
    String.utf8EncodeChar char = [UInt8.ofNat char.toNat] := by
  rw [String.utf8EncodeChar, if_pos]
  · rfl
  · exact Nat.le_of_lt_succ ascii

/-- All bytes of any other character are beyond ASCII. -/
theorem utf8EncodeChar_beyond {char : Char} (beyond : ¬ char.toNat < 128) {byte : UInt8}
    (member : byte ∈ String.utf8EncodeChar char) : 128 ≤ byte.toNat := by
  have high : ¬ char.val.toNat ≤ 127 := fun low => beyond (Nat.lt_succ_of_le low)
  rw [String.utf8EncodeChar] at member
  simp only [if_neg high] at member
  split at member
  · simp only [List.mem_cons, List.not_mem_nil, or_false] at member
    rcases member with rfl | rfl <;> simp only [UInt8.toNat_ofNat'] <;> omega
  · split at member
    · simp only [List.mem_cons, List.not_mem_nil, or_false] at member
      rcases member with rfl | rfl | rfl <;> simp only [UInt8.toNat_ofNat'] <;> omega
    · simp only [List.mem_cons, List.not_mem_nil, or_false] at member
      rcases member with rfl | rfl | rfl | rfl <;> simp only [UInt8.toNat_ofNat'] <;> omega

theorem toNat_ofNat_ascii {char : Char} (ascii : char.toNat < 128) :
    (UInt8.ofNat char.toNat).toNat = char.toNat := by
  rw [UInt8.toNat_ofNat']
  omega

theorem byteLength_ascii {char : Char} (ascii : char.toNat < 128) : byteLength [char] = 1 := by
  have one : char.utf8Size = 1 := Char.utf8Size_eq_one_iff.mpr (Nat.le_of_lt_succ ascii)
  simp [byteLength, one]

theorem length_bytes (text : List Char) : (text.flatMap String.utf8EncodeChar).length = byteLength text := by
  induction text with
  | nil => rfl
  | cons char text step => rw [List.flatMap_cons, List.length_append, String.length_utf8EncodeChar, step, byteLength]

/-! Ranges. -/

/-- The half-open byte range from `start` to `stop`. -/
structure Span where
  start : Nat
  stop : Nat
  deriving DecidableEq, Repr, Inhabited

namespace Span

/-- The largest offset that a span can hold. -/
def maxOffset : Nat := 0xFFFFFFFF

/-- Offsets past the largest one collapse onto it. -/
def ofRange (start stop : Nat) : Span := ⟨min start maxOffset, min stop maxOffset⟩

def length (span : Span) : Nat := span.stop - span.start

def isEmpty (span : Span) : Bool := span.start == span.stop

/-- The smallest span that covers both. -/
def merge (first second : Span) : Span :=
  ⟨min first.start second.start, max first.stop second.stop⟩

/-- The text a span covers; empty if the span does not fit the text. -/
def slice (span : Span) (text : List Char) : List Char :=
  (sliceBytes? text span.start span.stop).getD []

end Span

end HtmlTemplate
