import HtmlTemplate.Text.CharClass
import HtmlTemplate.Text.Span

/-! The part of a source that has not been read yet, with the byte offset at which it
starts. What a reader finds depends on the text alone; the offset is only carried along.
Main statement: `Reaches` holds between the place where a reader starts and the one where it
stops, so no reader goes back and every offset it meets is between two characters. -/

namespace HtmlTemplate

structure Input where
  pos : Nat
  rest : List Char
  deriving DecidableEq, Repr

namespace Input

def ofText (text : List Char) : Input := ⟨0, text⟩

/-- Number of characters left. -/
abbrev size (input : Input) : Nat := input.rest.length

def atEnd (input : Input) : Bool := input.rest.isEmpty

/-- The character some places ahead. -/
def peek? (input : Input) (ahead : Nat) : Option Char := input.rest[ahead]?

/-- Whether the next character is of a class; false at the end. -/
def isClass (class? : Char → Bool) (input : Input) : Bool :=
  match input.rest with
  | [] => false
  | char :: _ => class? char

def isAt (char : Char) (input : Input) : Bool := input.isClass (· == char)

def isClassAt (class? : Char → Bool) (ahead : Nat) (input : Input) : Bool :=
  (input.peek? ahead).any class?

/-- The end of the source or of a line. -/
def atLineEnd (input : Input) : Bool := input.atEnd || input.isClass CharClass.isLineEnd

/-- Steps over one character. -/
def advance : Input → Input
  | ⟨pos, []⟩ => ⟨pos, []⟩
  | ⟨pos, char :: rest⟩ => ⟨pos + char.utf8Size, rest⟩

def advanceBy : Nat → Input → Input
  | 0, input => input
  | count + 1, input => advanceBy count input.advance

/-- Steps over the characters of a class. -/
def dropFrom (class? : Char → Bool) (pos : Nat) : List Char → Input
  | [] => ⟨pos, []⟩
  | char :: rest =>
    if class? char then dropFrom class? (pos + char.utf8Size) rest else ⟨pos, char :: rest⟩

def dropWhile (class? : Char → Bool) (input : Input) : Input :=
  dropFrom class? input.pos input.rest

def dropUntil (class? : Char → Bool) (input : Input) : Input :=
  input.dropWhile fun char => !class? char

def takeWhile (class? : Char → Bool) (input : Input) : List Char := input.rest.takeWhile class?

def startsWith (word : List Char) (input : Input) : Bool := word.isPrefixOf input.rest

/-- Steps over a word if it comes next. -/
def eatWord? (word : List Char) (input : Input) : Option Input :=
  if input.startsWith word then some (input.advanceBy word.length) else none

/-- Steps over a character if it comes next. -/
def eat? (char : Char) (input : Input) : Option Input :=
  if input.isAt char then some input.advance else none

def skipSpacing (input : Input) : Input := input.dropWhile CharClass.isSpacing

def skipWhitespace (input : Input) : Input := input.dropWhile CharClass.isWhitespace

def skipRestOfLine (input : Input) : Input := input.dropUntil CharClass.isLineEnd

/-- Steps over one line terminator: carriage return and newline, or either alone. -/
def eatNewline? (input : Input) : Option Input :=
  (input.eatWord? ['\r', '\n']).or ((input.eat? '\n').or (input.eat? '\r'))

/-- The text from a place up to a byte offset. -/
def textFrom (pos stop : Nat) : List Char → List Char
  | [] => []
  | char :: rest => if pos < stop then char :: textFrom (pos + char.utf8Size) stop rest else []

def textTo (input : Input) (stop : Nat) : List Char := textFrom input.pos stop input.rest

theorem rest_dropFrom (class? : Char → Bool) (pos : Nat) (text : List Char) :
    (dropFrom class? pos text).rest = text.dropWhile class? := by
  induction text generalizing pos with
  | nil => rfl
  | cons char rest step => by_cases member : class? char <;> simp [dropFrom, member, step]

theorem rest_dropWhile (class? : Char → Bool) (input : Input) :
    (input.dropWhile class?).rest = input.rest.dropWhile class? :=
  rest_dropFrom ..

theorem length_dropWhile_le (class? : Char → Bool) (text : List Char) :
    (text.dropWhile class?).length ≤ text.length :=
  (List.dropWhile_sublist class?).length_le

theorem size_dropWhile_le (class? : Char → Bool) (input : Input) :
    (input.dropWhile class?).size ≤ input.size := by
  simpa [size, rest_dropWhile] using length_dropWhile_le class? input.rest

theorem size_skipSpacing_le (input : Input) : input.skipSpacing.size ≤ input.size :=
  size_dropWhile_le ..

theorem size_skipRestOfLine_le (input : Input) : input.skipRestOfLine.size ≤ input.size :=
  size_dropWhile_le ..

theorem size_advance (input : Input) : input.advance.size = input.size - 1 := by
  obtain ⟨pos, _ | ⟨char, rest⟩⟩ := input <;> simp [advance, size]

theorem size_advanceBy (count : Nat) (input : Input) :
    (input.advanceBy count).size = input.size - count := by
  induction count generalizing input with
  | zero => simp [advanceBy]
  | succ count step => simp [advanceBy, step, size_advance]; omega

theorem atEnd_iff (input : Input) : input.atEnd = true ↔ input.size = 0 := by
  simp only [atEnd, size, List.isEmpty_iff, List.length_eq_zero_iff]

theorem size_pos_of_isClass {class? : Char → Bool} {input : Input}
    (found : input.isClass class? = true) : 0 < input.size := by
  obtain ⟨pos, _ | ⟨char, rest⟩⟩ := input <;> simp_all [isClass, size]

theorem length_le_of_startsWith {word : List Char} {input : Input}
    (found : input.startsWith word = true) : word.length ≤ input.size :=
  (List.isPrefixOf_iff_prefix.mp found).length_le

theorem size_of_eatWord? {word : List Char} {input next : Input}
    (found : input.eatWord? word = some next) : next.size + word.length = input.size := by
  unfold eatWord? at found
  split at found
  · rename_i starts
    have := length_le_of_startsWith starts
    cases found
    rw [size_advanceBy]
    omega
  · cases found

theorem size_of_eat? {char : Char} {input next : Input} (found : input.eat? char = some next) :
    next.size < input.size := by
  unfold eat? at found
  split at found
  · rename_i starts
    have := size_pos_of_isClass starts
    cases found
    rw [size_advance]
    omega
  · cases found

/-- The second place is in the same text as the first, after what has been read meanwhile. -/
def Reaches (start stop : Input) : Prop :=
  ∃ read, start.rest = read ++ stop.rest ∧ stop.pos = start.pos + byteLength read

namespace Reaches

theorem refl (input : Input) : input.Reaches input := ⟨[], rfl, rfl⟩

theorem trans {start middle stop : Input} (first : start.Reaches middle)
    (second : middle.Reaches stop) : start.Reaches stop := by
  obtain ⟨read, rest, pos⟩ := first
  obtain ⟨more, moreRest, morePos⟩ := second
  exact ⟨read ++ more, by simp [rest, moreRest], by
    simp only [pos, morePos, byteLength_append]
    omega⟩

theorem size_le {start stop : Input} (reaches : start.Reaches stop) : stop.size ≤ start.size := by
  obtain ⟨read, rest, _⟩ := reaches
  simp [size, rest]

end Reaches

theorem reaches_advance (input : Input) : input.Reaches input.advance := by
  obtain ⟨pos, _ | ⟨char, rest⟩⟩ := input
  · exact .refl _
  · exact ⟨[char], rfl, by simp [advance, byteLength]⟩

theorem reaches_advanceBy (count : Nat) (input : Input) :
    input.Reaches (input.advanceBy count) := by
  induction count generalizing input with
  | zero => exact .refl _
  | succ count step => exact (reaches_advance input).trans (step input.advance)

theorem advanceBy_append (word text : List Char) (pos : Nat) :
    advanceBy word.length ⟨pos, word ++ text⟩ = ⟨pos + byteLength word, text⟩ := by
  induction word generalizing pos with
  | nil => rfl
  | cons char word step =>
    rw [byteLength, ← Nat.add_assoc]
    exact step (pos + char.utf8Size)

theorem reaches_dropFrom (class? : Char → Bool) (pos : Nat) (text : List Char) :
    Reaches ⟨pos, text⟩ (dropFrom class? pos text) := by
  induction text generalizing pos with
  | nil => exact .refl _
  | cons char rest step =>
    by_cases member : class? char
    · simp only [dropFrom, member, if_true]
      exact (reaches_advance ⟨pos, char :: rest⟩).trans (step _)
    · simp only [dropFrom, member]
      exact .refl _

theorem reaches_dropWhile (class? : Char → Bool) (input : Input) :
    input.Reaches (input.dropWhile class?) :=
  reaches_dropFrom ..

theorem reaches_skipSpacing (input : Input) : input.Reaches input.skipSpacing :=
  reaches_dropWhile ..

theorem reaches_skipWhitespace (input : Input) : input.Reaches input.skipWhitespace :=
  reaches_dropWhile ..

theorem reaches_skipRestOfLine (input : Input) : input.Reaches input.skipRestOfLine :=
  reaches_dropWhile ..

theorem reaches_of_eatWord? {word : List Char} {input next : Input}
    (found : input.eatWord? word = some next) : input.Reaches next := by
  unfold eatWord? at found
  split at found
  · cases found
    exact reaches_advanceBy ..
  · cases found

theorem reaches_of_eat? {char : Char} {input next : Input}
    (found : input.eat? char = some next) : input.Reaches next := by
  unfold eat? at found
  split at found
  · cases found
    exact reaches_advance _
  · cases found

/-- The second place is later in the same text than the first. -/
def Passes (start stop : Input) : Prop := start.Reaches stop ∧ stop.size < start.size

namespace Passes

theorem of_reaches {start middle stop : Input} (first : start.Passes middle)
    (second : middle.Reaches stop) : start.Passes stop :=
  ⟨first.1.trans second, Nat.lt_of_le_of_lt second.size_le first.2⟩

end Passes

theorem passes_advance {input : Input} (nonempty : 0 < input.size) :
    input.Passes input.advance :=
  ⟨reaches_advance _, by rw [size_advance]; omega⟩

theorem passes_advance_of_isClass {class? : Char → Bool} {input : Input}
    (found : input.isClass class? = true) : input.Passes input.advance :=
  passes_advance (size_pos_of_isClass found)

theorem passes_of_eatWord? {word : List Char} (nonempty : word ≠ []) {input next : Input}
    (found : input.eatWord? word = some next) : input.Passes next := by
  have shorter := size_of_eatWord? found
  have : word.length ≠ 0 := by simpa using nonempty
  exact ⟨reaches_of_eatWord? found, by omega⟩

theorem passes_of_eat? {char : Char} {input next : Input}
    (found : input.eat? char = some next) : input.Passes next :=
  ⟨reaches_of_eat? found, size_of_eat? found⟩

theorem passes_of_eatNewline? {input next : Input} (found : input.eatNewline? = some next) :
    input.Passes next := by
  simp only [eatNewline?, Option.or_eq_some_iff] at found
  rcases found with found | ⟨_, found | ⟨_, found⟩⟩
  · exact passes_of_eatWord? (by simp) found
  · exact passes_of_eat? found
  · exact passes_of_eat? found

theorem passes_of_startsWith {word : List Char} (nonempty : word ≠ []) {input : Input}
    (found : input.startsWith word = true) : input.Passes (input.advanceBy word.length) :=
  passes_of_eatWord? nonempty (by simp [eatWord?, found])

end Input

/-- What a reader hands back: a result and the place after it. -/
structure Parsed (α : Type) (start : Input) where
  value : α
  rest : Input
  reached : start.Reaches rest

namespace Parsed

theorem le {α : Type} {start : Input} (parsed : Parsed α start) :
    parsed.rest.size ≤ start.size :=
  parsed.reached.size_le

/-- A result read from a later place, seen from an earlier one. -/
def widen {α : Type} {start later : Input} (reached : start.Reaches later)
    (parsed : Parsed α later) : Parsed α start :=
  ⟨parsed.value, parsed.rest, reached.trans parsed.reached⟩

/-- A result without an input of its own. -/
def here {α : Type} (start : Input) (value : α) : Parsed α start := ⟨value, start, .refl _⟩

def map {α β : Type} {start : Input} (f : α → β) (parsed : Parsed α start) : Parsed β start :=
  ⟨f parsed.value, parsed.rest, parsed.reached⟩

end Parsed

end HtmlTemplate
