import HtmlTemplate.Text.CharClass
import HtmlTemplate.Text.Input

/-! A cursor over the bytes of a text. It may be put anywhere, also inside a character;
there it still shows single bytes, while the text after it counts as empty. Between two characters
it reads what is read of the characters after it, and every class of characters that it is moved by
leaves it between two characters again. -/

namespace HtmlTemplate

structure Cursor where
  source : String
  pos : Nat

namespace Cursor

def bytes (cursor : Cursor) : List UInt8 := cursor.source.toUTF8.toList

def size (cursor : Cursor) : Nat := cursor.source.utf8ByteSize

/-- Positions past the end count as the end. -/
def moveTo (cursor : Cursor) (pos : Nat) : Cursor := { cursor with pos := min pos cursor.size }

def atOffset (source : String) (pos : Nat) : Cursor := Cursor.moveTo ⟨source, 0⟩ pos

def advanceBy (cursor : Cursor) (count : Nat) : Cursor := cursor.moveTo (cursor.pos + count)

def atEnd (cursor : Cursor) : Bool := decide (cursor.size ≤ cursor.pos)

/-- The text between two offsets; empty where they do not cut whole characters. -/
def slice (cursor : Cursor) (start stop : Nat) : String :=
  String.ofList ((sliceBytes? cursor.source.toList start stop).getD [])

def rest (cursor : Cursor) : String := cursor.slice cursor.pos cursor.size

/-- The byte some places ahead, zero past the end. -/
def peek (cursor : Cursor) (ahead : Nat) : UInt8 :=
  (cursor.bytes[cursor.pos + ahead]?).getD 0

def current (cursor : Cursor) : UInt8 := cursor.peek 0

def isAt (cursor : Cursor) (byte : UInt8) : Bool := !cursor.atEnd && cursor.current == byte

def startsWith (cursor : Cursor) (text : String) : Bool :=
  text.toList.isPrefixOf cursor.rest.toList

/-- Steps over one byte if it is the expected one. -/
def eat (cursor : Cursor) (byte : UInt8) : Bool × Cursor :=
  if cursor.isAt byte then (true, cursor.advanceBy 1) else (false, cursor)

/-- Steps over a text if it comes next. -/
def eatText (cursor : Cursor) (text : String) : Bool × Cursor :=
  if cursor.startsWith text then (true, cursor.advanceBy text.utf8ByteSize) else (false, cursor)

/-- Steps over the bytes of a class and gives their text. -/
def eatWhile (cursor : Cursor) (class? : UInt8 → Bool) : String × Cursor :=
  let count := ((cursor.bytes.drop cursor.pos).takeWhile class?).length
  (cursor.slice cursor.pos (cursor.pos + count), cursor.advanceBy count)

/-- A class of ASCII characters, seen on bytes. -/
def ofClass (class? : Char → Bool) (byte : UInt8) : Bool :=
  byte < 128 && class? (Char.ofNat byte.toNat)

def eatUntil (cursor : Cursor) (class? : UInt8 → Bool) : String × Cursor :=
  cursor.eatWhile fun byte => !class? byte

def eatIdent (cursor : Cursor) : String × Cursor := cursor.eatWhile (ofClass CharClass.isIdent)

def skipSpacing (cursor : Cursor) : Cursor := (cursor.eatWhile (ofClass CharClass.isSpacing)).2

def skipWhitespace (cursor : Cursor) : Cursor :=
  (cursor.eatWhile (ofClass CharClass.isWhitespace)).2

/-- Steps over one line terminator: carriage return and newline, or either alone. -/
def skipNewline (cursor : Cursor) : Bool × Cursor :=
  match cursor.eatText "\r\n" with
  | (true, after) => (true, after)
  | (false, _) =>
    match cursor.eat 10 with
    | (true, after) => (true, after)
    | (false, _) => cursor.eat 13

/-- The text up to the next line terminator. -/
def restOfLine (cursor : Cursor) : String × Cursor :=
  cursor.eatUntil (ofClass CharClass.isLineEnd)

/-! Bytes and characters. -/

theorem toList_loop (bytes : ByteArray) (index : Nat) (read : List UInt8) :
    ByteArray.toList.loop bytes index read = read.reverse ++ bytes.data.toList.drop index := by
  induction index, read using ByteArray.toList.loop.induct bytes with
  | case1 index read within step =>
    have here : index < bytes.data.toList.length := within
    have byte : bytes.get! index = bytes.data.toList[index] := getElem!_pos bytes.data index within
    rw [ByteArray.toList.loop, if_pos within, step, List.drop_eq_getElem_cons here, byte, List.reverse_cons,
      List.append_assoc, List.singleton_append]
  | case2 index read beyond =>
    have none : bytes.data.toList.drop index = [] := List.drop_eq_nil_of_le (Nat.le_of_not_lt beyond)
    rw [ByteArray.toList.loop, if_neg beyond, none, List.append_nil]

theorem toByteArray_eq (text : String) :
    text.toByteArray = (text.toList.flatMap String.utf8EncodeChar).toByteArray :=
  String.utf8Encode_toList.symm

theorem bytes_eq (cursor : Cursor) : cursor.bytes = cursor.source.toList.flatMap String.utf8EncodeChar := by
  rw [bytes, String.toUTF8, toByteArray_eq, ByteArray.toList, toList_loop, List.data_toByteArray]
  rfl

theorem utf8ByteSize_eq (text : String) : text.utf8ByteSize = byteLength text.toList := by
  rw [← String.size_toByteArray, toByteArray_eq, List.size_toByteArray, length_bytes]

/-- A class of bytes that reads a class of characters: all bytes of a character are in it, or none is. -/
def Reads (bytes? : UInt8 → Bool) (class? : Char → Bool) : Prop :=
  ∀ char, ∀ byte ∈ String.utf8EncodeChar char, bytes? byte = class? char

theorem Reads.of_ascii {bytes? : UInt8 → Bool} {class? : Char → Bool}
    (ascii : ∀ char : Char, char.toNat < 128 → bytes? (UInt8.ofNat char.toNat) = class? char)
    (others : ∀ char : Char, ¬ char.toNat < 128 → class? char = false)
    (beyond : ∀ byte : UInt8, 128 ≤ byte.toNat → bytes? byte = false) : Reads bytes? class? := by
  intro char byte member
  by_cases low : char.toNat < 128
  · rw [utf8EncodeChar_ascii low, List.mem_singleton] at member
    rw [member, ascii char low]
  · rw [beyond byte (utf8EncodeChar_beyond low member), others char low]

/-- Classes of ASCII characters are read by the bytes that stand for them. -/
theorem reads_ofClass {class? : Char → Bool} (ascii : ∀ char, class? char = true → char.toNat < 128) :
    Reads (ofClass class?) class? := by
  refine .of_ascii (fun char low => ?_) (fun char high => ?_) fun byte high => ?_
  · have small : UInt8.ofNat char.toNat < 128 := by
      rw [UInt8.lt_iff_toNat_lt, toNat_ofNat_ascii low]
      exact low
    rw [ofClass, decide_eq_true small, Bool.true_and, toNat_ofNat_ascii low, Char.ofNat_toNat]
  · exact Bool.eq_false_iff.mpr fun member => high (ascii char member)
  · have large : ¬ byte < 128 := by
      rw [UInt8.lt_iff_toNat_lt]
      exact Nat.not_lt_of_le high
    rw [ofClass, decide_eq_false large, Bool.false_and]

/-- One ASCII character is read by its byte. -/
theorem reads_byte {char : Char} (ascii : char.toNat < 128) :
    Reads (· == UInt8.ofNat char.toNat) (· == char) := by
  refine .of_ascii (fun other low => ?_) (fun other high => ?_) fun byte high => ?_
  · rw [Bool.eq_iff_iff, beq_iff_eq, beq_iff_eq, ← UInt8.toNat_inj, toNat_ofNat_ascii low, toNat_ofNat_ascii ascii,
      Char.toNat_inj]
  · exact beq_eq_false_iff_ne.mpr fun same => high (same ▸ ascii)
  · refine beq_eq_false_iff_ne.mpr fun same => ?_
    rw [same, toNat_ofNat_ascii ascii] at high
    exact Nat.not_lt_of_le high ascii

theorem Reads.not {bytes? : UInt8 → Bool} {class? : Char → Bool} (reads : Reads bytes? class?) :
    Reads (fun byte => !bytes? byte) (fun char => !class? char) :=
  fun char byte member => congrArg (!·) (reads char byte member)

/-- The first byte of a character, and the others. -/
theorem utf8EncodeChar_cons (char : Char) : ∃ byte others, String.utf8EncodeChar char = byte :: others := by
  refine List.exists_cons_of_ne_nil fun none => ?_
  have wide : 0 < char.utf8Size := Char.utf8Size_pos char
  rw [← String.length_utf8EncodeChar, none] at wide
  exact Nat.lt_irrefl 0 wide

theorem Reads.takeWhile {bytes? : UInt8 → Bool} {class? : Char → Bool} (reads : Reads bytes? class?)
    (text : List Char) :
    (text.flatMap String.utf8EncodeChar).takeWhile bytes? =
      (text.takeWhile class?).flatMap String.utf8EncodeChar := by
  induction text with
  | nil => rfl
  | cons char text step =>
    rw [List.flatMap_cons]
    by_cases member : class? char = true
    · rw [List.takeWhile_append_of_pos fun byte here => (reads char byte here).trans member,
        List.takeWhile_cons_of_pos member, List.flatMap_cons, step]
    · obtain ⟨byte, others, bytes⟩ := utf8EncodeChar_cons char
      have out : ¬ bytes? byte = true := by rwa [reads char byte (bytes ▸ List.mem_cons_self)]
      rw [List.takeWhile_cons_of_neg member, bytes, List.cons_append, List.takeWhile_cons_of_neg out]
      rfl

/-! Places. -/

/-- A cursor that stands between two characters, before what has not been read yet. -/
structure Shows (cursor : Cursor) (input : Input) : Prop where
  reached : (Input.ofText cursor.source.toList).Reaches input
  pos : cursor.pos = input.pos

theorem shows_atOffset {source : String} {input : Input}
    (reached : (Input.ofText source.toList).Reaches input) : (atOffset source input.pos).Shows input := by
  refine ⟨reached, Nat.min_eq_left ?_⟩
  obtain ⟨read, whole, pos⟩ := reached
  have text : source.toList = read ++ input.rest := whole
  have place : input.pos = byteLength read := pos.trans (Nat.zero_add _)
  rw [size, utf8ByteSize_eq, text, byteLength_append, place]
  exact Nat.le_add_right ..

/-- A cursor that has taken the characters of a class is where an input is that has taken them. -/
structure Takes (taken : String × Cursor) (class? : Char → Bool) (input : Input) : Prop where
  text : taken.1 = String.ofList (input.takeWhile class?)
  after : taken.2.Shows (input.dropWhile class?)

/-- A cursor that steps over something if it comes next does so where an input does, and ends up in the same place. -/
structure Eats (eaten : Bool × Cursor) (next : Option Input) (input : Input) : Prop where
  done : eaten.1 = next.isSome
  after : eaten.2.Shows (next.getD input)

theorem eats_if {cursor after : Cursor} {input next : Input} {found : Bool} (shows : cursor.Shows input)
    (moved : found = true → after.Shows next) :
    Eats (if found then (true, after) else (false, cursor)) (if found then some next else none) input := by
  cases found with
  | true => exact ⟨rfl, moved rfl⟩
  | false => exact ⟨rfl, shows⟩

/-- If the first thing does not come next, the second may. -/
theorem eats_or {eaten other : Bool × Cursor} {first second : Option Input} {input : Input}
    (later : Eats other second input) : Eats eaten first input →
    Eats (match eaten with | (true, after) => (true, after) | (false, _) => other) (first.or second) input := by
  intro earlier
  obtain ⟨done, cursor⟩ := eaten
  cases first with
  | none =>
    obtain rfl : done = false := earlier.done
    exact later
  | some next =>
    obtain rfl : done = true := earlier.done
    exact ⟨rfl, earlier.after⟩

namespace Shows

variable {cursor : Cursor} {input next : Input} {read : List Char} {bytes? : UInt8 → Bool} {class? : Char → Bool}

theorem split (shows : cursor.Shows input) :
    ∃ before, cursor.source.toList = before ++ input.rest ∧ cursor.pos = byteLength before := by
  obtain ⟨before, text, pos⟩ := shows.reached
  exact ⟨before, text, shows.pos.trans (pos.trans (Nat.zero_add _))⟩

theorem drop (shows : cursor.Shows input) :
    cursor.bytes.drop cursor.pos = input.rest.flatMap String.utf8EncodeChar := by
  obtain ⟨before, text, pos⟩ := shows.split
  rw [bytes_eq, text, pos, List.flatMap_append, ← length_bytes, List.drop_left]

theorem size (shows : cursor.Shows input) : cursor.size = cursor.pos + byteLength input.rest := by
  obtain ⟨before, text, pos⟩ := shows.split
  rw [Cursor.size, utf8ByteSize_eq, text, pos, byteLength_append]

/-- What is read of the text is cut out of it. -/
theorem slice (shows : cursor.Shows input) {after : List Char} (rest : input.rest = read ++ after) :
    cursor.slice cursor.pos (cursor.pos + byteLength read) = String.ofList read := by
  obtain ⟨before, text, pos⟩ := shows.split
  rw [Cursor.slice, text, rest, pos, sliceBytes?, if_pos (Nat.le_add_right ..), dropBytes?_append,
    Nat.add_sub_cancel_left]
  exact congrArg (fun part => String.ofList (part.getD [])) (takeBytes?_append read after)

/-- The cursor after what has been read. -/
theorem advanceBy (shows : cursor.Shows input) (rest : input.rest = read ++ next.rest)
    (pos : next.pos = input.pos + byteLength read) : (cursor.advanceBy (byteLength read)).Shows next := by
  refine ⟨shows.reached.trans ⟨read, rest, pos⟩, ?_⟩
  rw [Cursor.advanceBy, moveTo, shows.size, rest, byteLength_append, pos, ← shows.pos, ← Nat.add_assoc]
  exact Nat.min_eq_left (Nat.le_add_right ..)

theorem rest (shows : cursor.Shows input) : cursor.rest = String.ofList input.rest := by
  rw [Cursor.rest, shows.size]
  exact shows.slice (List.append_nil _).symm

theorem startsWith (shows : cursor.Shows input) (text : String) :
    cursor.startsWith text = input.startsWith text.toList := by
  rw [Cursor.startsWith, shows.rest, String.toList_ofList]
  rfl

theorem atEnd (shows : cursor.Shows input) : cursor.atEnd = input.atEnd := by
  rw [Cursor.atEnd, shows.size, Input.atEnd]
  cases input.rest with
  | nil => exact decide_eq_true (Nat.le_refl _)
  | cons char text =>
    have wide : 0 < char.utf8Size := Char.utf8Size_pos char
    refine decide_eq_false ?_
    rw [byteLength]
    omega

theorem isAt (shows : cursor.Shows input) {char : Char} (ascii : char.toNat < 128) :
    cursor.isAt (UInt8.ofNat char.toNat) = input.isAt char := by
  have head : (cursor.bytes.drop cursor.pos)[0]? = (input.rest.flatMap String.utf8EncodeChar)[0]? := by rw [shows.drop]
  rw [List.getElem?_drop] at head
  rw [Cursor.isAt, shows.atEnd, current, peek, head, Input.isAt, Input.isClass, Input.atEnd]
  cases input.rest with
  | nil => rfl
  | cons other text =>
    obtain ⟨byte, others, bytes⟩ := utf8EncodeChar_cons other
    rw [List.flatMap_cons, bytes]
    exact reads_byte ascii other byte (bytes ▸ List.mem_cons_self)

/-! Reading on. -/

theorem eatWhile (shows : cursor.Shows input) (reads : Reads bytes? class?) :
    Takes (cursor.eatWhile bytes?) class? input := by
  have count : ((cursor.bytes.drop cursor.pos).takeWhile bytes?).length = byteLength (input.takeWhile class?) := by
    rw [shows.drop, reads.takeWhile, length_bytes, Input.takeWhile]
  obtain ⟨read, whole, pos⟩ := Input.reaches_dropWhile class? input
  have rest : input.rest = input.takeWhile class? ++ (input.dropWhile class?).rest := by
    rw [Input.rest_dropWhile]
    exact List.takeWhile_append_dropWhile.symm
  obtain rfl : read = input.takeWhile class? := List.append_cancel_right (whole.symm.trans rest)
  rw [Cursor.eatWhile, count]
  exact ⟨shows.slice rest, shows.advanceBy rest pos⟩

theorem eatUntil (shows : cursor.Shows input) (reads : Reads bytes? class?) :
    Takes (cursor.eatUntil bytes?) (fun char => !class? char) input :=
  shows.eatWhile reads.not

theorem eatIdent (shows : cursor.Shows input) : Takes cursor.eatIdent CharClass.isIdent input :=
  shows.eatWhile (reads_ofClass fun _ => CharClass.ascii_of_isIdent)

theorem skipSpacing (shows : cursor.Shows input) : cursor.skipSpacing.Shows input.skipSpacing :=
  (shows.eatWhile (reads_ofClass fun _ => CharClass.ascii_of_isSpacing)).after

theorem skipWhitespace (shows : cursor.Shows input) : cursor.skipWhitespace.Shows input.skipWhitespace :=
  (shows.eatWhile (reads_ofClass fun _ => CharClass.ascii_of_isWhitespace)).after

theorem restOfLine (shows : cursor.Shows input) :
    Takes cursor.restOfLine (fun char => !CharClass.isLineEnd char) input :=
  shows.eatUntil (reads_ofClass fun _ => CharClass.ascii_of_isLineEnd)

theorem eatText (shows : cursor.Shows input) (text : String) :
    Eats (cursor.eatText text) (input.eatWord? text.toList) input := by
  rw [Cursor.eatText, Input.eatWord?, shows.startsWith]
  refine eats_if shows fun starts => ?_
  obtain ⟨after, rest⟩ := List.isPrefixOf_iff_prefix.mp starts
  have next : input.advanceBy text.toList.length = ⟨input.pos + byteLength text.toList, after⟩ := by
    rw [← Input.advanceBy_append, rest]
  rw [utf8ByteSize_eq, next]
  exact shows.advanceBy rest.symm rfl

theorem eat (shows : cursor.Shows input) {char : Char} (ascii : char.toNat < 128) :
    Eats (cursor.eat (UInt8.ofNat char.toNat)) (input.eat? char) input := by
  rw [Cursor.eat, Input.eat?, shows.isAt ascii]
  refine eats_if shows fun here => ?_
  obtain ⟨pos, text⟩ := input
  cases text with
  | nil => cases here
  | cons other text =>
    obtain rfl : other = char := eq_of_beq here
    have moved : (cursor.advanceBy (byteLength [other])).Shows (Input.advance ⟨pos, other :: text⟩) :=
      shows.advanceBy rfl rfl
    rwa [byteLength_ascii ascii] at moved

theorem skipNewline (shows : cursor.Shows input) : Eats cursor.skipNewline input.eatNewline? input :=
  eats_or (eats_or (shows.eat (by decide : '\r'.toNat < 128)) (shows.eat (by decide : '\n'.toNat < 128)))
    (shows.eatText "\r\n")

end Shows

end Cursor

end HtmlTemplate
