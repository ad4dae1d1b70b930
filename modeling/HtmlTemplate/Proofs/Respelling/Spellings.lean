import Mathlib.Data.Option.Basic
import HtmlTemplate.Proofs.Reading.Basic

/-! Texts that are written anew with other blanks, and what readers see of them. A way to write texts anew is known
by its laws: both texts look alike to whoever takes a tab for a space and a carriage return for a newline, and what
is no blank stands in both. -/

namespace HtmlTemplate.Respelling

open CharClass

/-! What looks alike. -/

/-- What a character is taken for. -/
def look (char : Char) : Char :=
  if char = '\t' then ' ' else if char = '\r' then '\n' else char

/-- Tabs are like spaces, and carriage returns like newlines. -/
structure Blind {α : Type} (sees : Char → α) : Prop where
  spacing : sees '\t' = sees ' '
  lineEnd : sees '\r' = sees '\n'

theorem Blind.eq_look {α : Type} {sees : Char → α} (blind : Blind sees) (char : Char) :
    sees (look char) = sees char := by
  unfold look
  split
  · rename_i tab
    rw [tab, blind.spacing]
  · split
    · rename_i carriage
      rw [carriage, blind.lineEnd]
    · rfl

theorem Blind.eq {α : Type} {sees : Char → α} (blind : Blind sees) {char other : Char}
    (alike : look other = look char) : sees other = sees char := by
  rw [← blind.eq_look, alike, blind.eq_look]

/-- No blank is of a class. -/
structure Solid (class? : Char → Bool) : Prop where
  tab : class? '\t' = false
  space : class? ' ' = false
  carriage : class? '\r' = false
  newline : class? '\n' = false

variable {class? : Char → Bool} {char : Char}

theorem Solid.blind (solid : Solid class?) : Blind class? :=
  ⟨solid.tab.trans solid.space.symm, solid.carriage.trans solid.newline.symm⟩

theorem isWhitespace_cases (blank : isWhitespace char = true) :
    char = ' ' ∨ char = '\t' ∨ char = '\n' ∨ char = '\r' := by
  simp only [isWhitespace, isSpacing, isLineEnd, Bool.or_eq_true, beq_iff_eq] at blank
  rcases blank with (same | same) | (same | same)
  · exact .inl same
  · exact .inr (.inl same)
  · exact .inr (.inr (.inl same))
  · exact .inr (.inr (.inr same))

theorem Solid.visible (solid : Solid class?) (inside : class? char = true) : isWhitespace char = false := by
  refine Bool.eq_false_iff.mpr fun blank => ?_
  rcases isWhitespace_cases blank with rfl | rfl | rfl | rfl
  · exact Bool.false_ne_true (solid.space.symm.trans inside)
  · exact Bool.false_ne_true (solid.tab.symm.trans inside)
  · exact Bool.false_ne_true (solid.newline.symm.trans inside)
  · exact Bool.false_ne_true (solid.carriage.symm.trans inside)

theorem solid_of_visible (visible : isWhitespace char = false) : Solid (· == char) := by
  have other (blank : Char) (white : isWhitespace blank = true) : (blank == char) = false := by
    refine beq_false_of_ne ?_
    rintro rfl
    exact Bool.false_ne_true (visible.symm.trans white)
  exact ⟨other _ rfl, other _ rfl, other _ rfl, other _ rfl⟩

theorem isWhitespace_of_look {other : Char} (alike : look other = look char) :
    isWhitespace other = isWhitespace char := Blind.eq ⟨rfl, rfl⟩ alike

/-- What is no blank looks like itself alone. -/
theorem eq_of_look {other : Char} (visible : isWhitespace char = false) (alike : look other = look char) :
    other = char := by
  have same {char : Char} (visible : isWhitespace char = false) : look char = char := by
    unfold look
    split
    · rename_i tab
      rw [tab] at visible
      cases visible
    · split
      · rename_i carriage
        rw [carriage] at visible
        cases visible
      · rfl
  rw [← same visible, ← alike, same ((isWhitespace_of_look alike).trans visible)]

/-- Whether a word has no blanks in it. -/
def Visible (word : List Char) : Prop := ∀ char ∈ word, isWhitespace char = false

instance (word : List Char) : Decidable (Visible word) :=
  List.decidableBAll (isWhitespace · = false) word

theorem isLineEnd_of_visible (visible : isWhitespace char = false) : isLineEnd char = false :=
  (Bool.or_eq_false_iff.mp visible).2

theorem isSpacing_of_visible (visible : isWhitespace char = false) : isSpacing char = false :=
  (Bool.or_eq_false_iff.mp visible).1

theorem visible_of_blank_false (spacing : isSpacing char = false) (within : isLineEnd char = false) :
    isWhitespace char = false := by
  rw [isWhitespace, spacing, within]
  rfl

theorem isLineEnd_of_isSpacing (spacing : isSpacing char = true) : isLineEnd char = false := by
  rcases Bool.or_eq_true_iff.mp spacing with same | same <;> rw [beq_iff_eq.mp same] <;> rfl

/-- What is skipped over blanks: with the ends of lines, also the spacing after them. -/
structure Skips (class? : Char → Bool) : Prop where
  spacing : class? '\t' = class? ' '
  lineEnd : class? '\r' = class? '\n'
  goesOn : (!class? '\n' || class? ' ') = true

namespace Skips

theorem blind (skips : Skips class?) : Blind class? := ⟨skips.spacing, skips.lineEnd⟩

/-- With one end of a line all blanks are skipped. -/
theorem all (skips : Skips class?) (ends : isLineEnd char = true) (inside : class? char = true) {other : Char}
    (blank : isWhitespace other = true) : class? other = true := by
  have newline : class? '\n' = true := by
    rcases Bool.or_eq_true_iff.mp ends with same | same
    · rwa [beq_iff_eq.mp same] at inside
    · rwa [beq_iff_eq.mp same, skips.lineEnd] at inside
  have space : class? ' ' = true := by
    have goesOn := skips.goesOn
    rwa [newline] at goesOn
  rcases isWhitespace_cases blank with rfl | rfl | rfl | rfl
  · exact space
  · exact skips.spacing.trans space
  · exact newline
  · exact skips.lineEnd.trans newline

end Skips

/-- Two texts that begin alike. -/
inductive Heads : List Char → List Char → Prop where
  | nil : Heads [] []
  | cons {char mark : Char} {text more : List Char} (alike : look mark = look char) :
      Heads (char :: text) (mark :: more)

/-- Where one text does not go on with a class, the other one does not. -/
theorem Heads.stops {text other : List Char} (blind : Blind class?) (heads : Heads (char :: text) other)
    (outside : class? char = false) : (char :: text).takeWhile class? = [] ∧ other.takeWhile class? = [] ∧
      (char :: text).dropWhile class? = char :: text ∧ other.dropWhile class? = other := by
  have stopped {char : Char} {text : List Char} (outside : class? char = false) :
      (char :: text).takeWhile class? = [] ∧ (char :: text).dropWhile class? = char :: text := by
    simp [outside]
  cases heads with
  | cons alike =>
    have other := (blind.eq alike).trans outside
    exact ⟨(stopped outside).1, (stopped other).1, (stopped outside).2, (stopped other).2⟩

/-- How texts correspond that are put out as they are: they are the same, or neither of them is empty. -/
def Agrees : Bool → String → String → Prop
  | false, text, other => text = "" ↔ other = ""
  | true, text, other => other = text

theorem ofList_ne_empty {text : List Char} (some : text ≠ []) : String.ofList text ≠ "" := fun none =>
  some (String.ofList_injective none)

namespace Agrees

variable {shows : Bool} {text other more rest : String}

theorem refl (shows : Bool) (text : String) : Agrees shows text text := by
  cases shows with
  | false => exact Iff.rfl
  | true => rfl

theorem eq (agrees : Agrees shows text other) (shown : shows = true) : other = text := by
  subst shown
  exact agrees

theorem empty_iff (agrees : Agrees shows text other) : text = "" ↔ other = "" := by
  cases shows with
  | false => exact agrees
  | true =>
    cases agrees
    exact Iff.rfl

theorem append (agrees : Agrees shows text other) (further : Agrees shows more rest) :
    Agrees shows (text ++ more) (other ++ rest) := by
  cases shows with
  | false =>
    change _ = "" ↔ _ = ""
    rw [String.append_eq_empty_iff, String.append_eq_empty_iff]
    exact and_congr agrees further
  | true =>
    cases agrees
    cases further
    rfl

end Agrees

/-- Two texts of pieces, of which neither is empty. -/
structure Alike (shows : Bool) (chars others : List Char) : Prop where
  some : chars ≠ []
  other : others ≠ []
  agrees : Agrees shows (String.ofList chars) (String.ofList others)

namespace Alike

variable {shows : Bool} {chars others more rest : List Char}

theorem refl (some : chars ≠ []) : Alike shows chars chars := ⟨some, some, .refl shows _⟩

theorem append (first : Alike shows chars others) (second : Alike shows more rest) :
    Alike shows (chars ++ more) (others ++ rest) := by
  refine ⟨fun none => first.some (List.append_eq_nil_iff.mp none).1,
    fun none => first.other (List.append_eq_nil_iff.mp none).1, ?_⟩
  rw [String.ofList_append, String.ofList_append]
  exact first.agrees.append second.agrees

end Alike

/-- A way to write texts anew. -/
structure Spelling where
  /-- Whether the texts of a template stay as they are. -/
  shows : Bool
  /-- Whether everything stays as it is. -/
  keeps : Prop
  /-- The first text may be written as the second one. -/
  beside : List Char → List Char → Prop
  /-- The same on a line of which something that is no spacing has been read. -/
  inside : List Char → List Char → Prop
  weaken {text other : List Char} : inside text other → beside text other
  heads {text other : List Char} : beside text other → Heads text other
  shown : keeps → shows = true
  same {text other : List Char} : keeps → beside text other → other = text
  visible {char : Char} {text other : List Char} : isWhitespace char = false → beside (char :: text) other →
    ∃ rest, other = char :: rest ∧ inside text rest
  within {char : Char} {text other : List Char} : isLineEnd char = false → inside (char :: text) other →
    ∃ rest, other = char :: rest ∧ inside text rest
  /-- What a backslash stands before is no other blank in the second text. -/
  escaped {char : Char} {text other : List Char} : beside ('\\' :: char :: text) other →
    ∃ rest, other = '\\' :: char :: rest ∧ beside text rest ∧ (isLineEnd char = false → inside text rest)
  spacing {char : Char} {text other : List Char} : isSpacing char = true → beside (char :: text) other →
    ∃ copies rest, other = copies ++ rest ∧ (∀ copy ∈ copies, isSpacing copy = true) ∧ Alike shows [char] copies ∧
      beside text rest
  /-- The end of a line is written as some blanks, perhaps together with others after it. -/
  lineEnd {char : Char} {text other : List Char} : isLineEnd char = true → beside (char :: text) other →
    ∃ run more copies rest, text = run ++ more ∧ other = copies ++ rest ∧
      (∀ blank ∈ run, isWhitespace blank = true) ∧ (∀ copy ∈ copies, isWhitespace copy = true) ∧ beside more rest

namespace Spelling

variable {spelling : Spelling} {text other : List Char}

theorem nil_iff (texts : spelling.beside text other) : other = [] ↔ text = [] := by
  cases spelling.heads texts with
  | nil => exact iff_of_true rfl rfl
  | cons => exact iff_of_false (List.cons_ne_nil _ _) (List.cons_ne_nil _ _)

/-- A word without blanks stands in both texts or in neither. -/
theorem word {word : List Char} (visible : Visible word) (texts : spelling.beside text other) :
    word.isPrefixOf other = word.isPrefixOf text ∧ (word.isPrefixOf text = true →
      spelling.beside (text.drop word.length) (other.drop word.length) ∧
        (word ≠ [] → spelling.inside (text.drop word.length) (other.drop word.length))) := by
  induction word generalizing text other with
  | nil => exact ⟨by rw [List.isPrefixOf, List.isPrefixOf], fun _ => ⟨texts, absurd rfl⟩⟩
  | cons char word step =>
    obtain ⟨first, rest⟩ := List.forall_mem_cons.mp visible
    cases spelling.heads texts with
    | nil => exact ⟨rfl, nofun⟩
    | @cons mark copy text other alike =>
      by_cases same : mark = char
      · subst same
        obtain ⟨more, written, further⟩ := spelling.visible first texts
        obtain ⟨rfl, rfl⟩ := List.cons.inj written
        obtain ⟨found, goesOn⟩ := step rest (spelling.weaken further)
        rw [List.isPrefixOf_cons_cons_self, List.isPrefixOf_cons_cons_self, found]
        refine ⟨rfl, fun starts => ⟨(goesOn starts).1, fun _ => ?_⟩⟩
        by_cases none : word = []
        · subst none
          exact further
        · exact (goesOn starts).2 none
      · have apart : copy ≠ char := by
          rintro rfl
          exact same (eq_of_look first alike.symm)
        have none {mark : Char} {more : List Char} (apart : mark ≠ char) :
            (char :: word).isPrefixOf (mark :: more) = false := by
          rw [List.isPrefixOf, beq_false_of_ne apart.symm, Bool.false_and]
        rw [none same, none apart]
        exact ⟨rfl, nofun⟩

/-- Characters that are no blanks are the same in both texts. -/
theorem takeWhile (solid : Solid class?) (texts : spelling.beside text other) :
    other.takeWhile class? = text.takeWhile class? := by
  induction text generalizing other with
  | nil => rw [spelling.nil_iff texts |>.mpr rfl]
  | cons char text step =>
    cases found : class? char with
    | true =>
      obtain ⟨rest, rfl, further⟩ := spelling.visible (solid.visible found) texts
      rw [List.takeWhile_cons_of_pos found, List.takeWhile_cons_of_pos found, step (spelling.weaken further)]
    | false =>
      obtain ⟨here, there, -⟩ := (spelling.heads texts).stops solid.blind found
      rw [here, there]

/-- What is skipped of both texts is of one class. -/
theorem dropWhile (skips : Skips class?) {text other : List Char} (texts : spelling.beside text other) :
    spelling.beside (text.dropWhile class?) (other.dropWhile class?) := by
  cases text with
  | nil =>
    obtain rfl := spelling.nil_iff texts |>.mpr rfl
    exact texts
  | cons char text =>
    cases found : class? char with
    | false =>
      obtain ⟨-, -, here, there⟩ := (spelling.heads texts).stops skips.blind found
      rwa [here, there]
    | true =>
      rw [List.dropWhile_cons_of_pos found]
      cases ends : isLineEnd char with
      | true =>
        obtain ⟨run, more, copies, rest, rfl, rfl, blanks, others, further⟩ := spelling.lineEnd ends texts
        rw [List.dropWhile_append_of_pos fun blank member => skips.all ends found (blanks blank member),
          List.dropWhile_append_of_pos fun copy member => skips.all ends found (others copy member)]
        exact dropWhile skips further
      | false =>
        cases blank : isSpacing char with
        | true =>
          obtain ⟨copies, rest, rfl, others, -, further⟩ := spelling.spacing blank texts
          have all {mark : Char} (spacing : isSpacing mark = true) : class? mark = class? ' ' := by
            rcases Bool.or_eq_true_iff.mp spacing with same | same
            · rw [beq_iff_eq.mp same]
            · rw [beq_iff_eq.mp same, skips.spacing]
          rw [List.dropWhile_append_of_pos fun copy member =>
            (all (others copy member)).trans ((all blank).symm.trans found)]
          exact dropWhile skips further
        | false =>
          obtain ⟨rest, rfl, further⟩ := spelling.visible (visible_of_blank_false blank ends) texts
          rw [List.dropWhile_cons_of_pos found]
          exact dropWhile skips (spelling.weaken further)
termination_by text.length
decreasing_by
  all_goals
    subst_vars
    simp only [List.length_cons, List.length_append]
    omega

/-- On the rest of a line both texts are the same. -/
theorem takeWhile_flat (blind : Blind class?) (flat : ∀ char ∈ text.takeWhile class?, isLineEnd char = false)
    (texts : spelling.inside text other) : other.takeWhile class? = text.takeWhile class? ∧
      spelling.inside (text.dropWhile class?) (other.dropWhile class?) := by
  induction text generalizing other with
  | nil =>
    obtain rfl := spelling.nil_iff (spelling.weaken texts) |>.mpr rfl
    exact ⟨rfl, texts⟩
  | cons char text step =>
    cases found : class? char with
    | true =>
      rw [List.takeWhile_cons_of_pos found] at flat ⊢
      obtain ⟨first, more⟩ := List.forall_mem_cons.mp flat
      obtain ⟨rest, rfl, further⟩ := spelling.within first texts
      obtain ⟨same, after⟩ := step more further
      rw [List.takeWhile_cons_of_pos found, List.dropWhile_cons_of_pos found, List.dropWhile_cons_of_pos found, same]
      exact ⟨rfl, after⟩
    | false =>
      obtain ⟨here, there, rest, more⟩ := (spelling.heads (spelling.weaken texts)).stops blind found
      rw [here, there, rest, more]
      exact ⟨rfl, texts⟩

/-- A character that ends no line, and what stands for it in the second text. -/
theorem letter (within : isLineEnd char = false) (texts : spelling.beside (char :: text) other) :
    ∃ copies rest, other = copies ++ rest ∧ Alike spelling.shows [char] copies ∧ spelling.beside text rest ∧
      (copies = [char] ∨ isSpacing char = true ∧ ∀ copy ∈ copies, isSpacing copy = true) := by
  cases blank : isSpacing char with
  | true =>
    obtain ⟨copies, rest, same, others, alike, further⟩ := spelling.spacing blank texts
    exact ⟨copies, rest, same, alike, further, .inr ⟨rfl, others⟩⟩
  | false =>
    obtain ⟨rest, same, further⟩ := spelling.visible (visible_of_blank_false blank within) texts
    exact ⟨[char], rest, same, .refl (List.cons_ne_nil _ _), spelling.weaken further, .inl rfl⟩

theorem notLineEnd_blind : Blind fun char => !isLineEnd char := ⟨rfl, rfl⟩

/-- The rest of a line is put out alike. -/
theorem restOfLine (texts : spelling.beside text other) :
    Agrees spelling.shows (String.ofList (text.takeWhile fun char => !isLineEnd char))
      (String.ofList (other.takeWhile fun char => !isLineEnd char)) := by
  induction text generalizing other with
  | nil =>
    obtain rfl := spelling.nil_iff texts |>.mpr rfl
    exact .refl _ _
  | cons char text step =>
    cases ends : isLineEnd char with
    | true =>
      obtain ⟨here, there, -⟩ := (spelling.heads texts).stops notLineEnd_blind (Bool.not_eq_false' .. |>.mpr ends)
      rw [here, there]
      exact .refl _ _
    | false =>
      obtain ⟨copies, rest, rfl, alike, further, cases⟩ := spelling.letter ends texts
      have flat : ∀ copy ∈ copies, (!isLineEnd copy) = true := by
        intro copy member
        rcases cases with rfl | ⟨-, spacing⟩
        · rw [List.mem_singleton.mp member, ends]
          rfl
        · rw [isLineEnd_of_isSpacing (spacing copy member)]
          rfl
      rw [List.takeWhile_cons_of_pos (by rw [ends]; rfl), List.takeWhile_append_of_pos flat, ← List.singleton_append,
        String.ofList_append, String.ofList_append]
      exact alike.agrees.append (step further)

/-- The rest of a line that does not begin with spacing is the same. -/
theorem restOfLine_same (begun : ∀ char ∈ text.head?, isSpacing char = false) (texts : spelling.beside text other) :
    (other.takeWhile fun char => !isLineEnd char) = text.takeWhile fun char => !isLineEnd char := by
  cases text with
  | nil => rw [spelling.nil_iff texts |>.mpr rfl]
  | cons char text =>
    cases ends : isLineEnd char with
    | true =>
      obtain ⟨here, there, -⟩ := (spelling.heads texts).stops notLineEnd_blind (Bool.not_eq_false' .. |>.mpr ends)
      rw [here, there]
    | false =>
      obtain ⟨rest, rfl, further⟩ := spelling.visible (visible_of_blank_false (begun char rfl) ends) texts
      have flat : ∀ mark ∈ text.takeWhile fun char => !isLineEnd char, isLineEnd mark = false := fun mark member =>
        Bool.not_eq_true' .. |>.mp (List.all_eq_true.mp List.all_takeWhile mark member)
      rw [List.takeWhile_cons_of_pos (by rw [ends]; rfl), List.takeWhile_cons_of_pos (by rw [ends]; rfl),
        (spelling.takeWhile_flat ⟨rfl, rfl⟩ flat further).1]

end Spelling

/-! Line terminators. -/

/-- The text after the line terminator that it begins with. -/
def afterBreak? : List Char → Option (List Char)
  | '\r' :: '\n' :: text => some text
  | '\n' :: text => some text
  | '\r' :: text => some text
  | _ => none

section

variable {text : List Char}

theorem afterBreak?_carriage (apart : ∀ more, text ≠ '\n' :: more) : afterBreak? ('\r' :: text) = some text := by
  unfold afterBreak?
  split
  · rename_i same
    exact absurd (List.cons.inj same).2 (apart _)
  · rename_i same
    exact absurd (List.cons.inj same).1 (by decide)
  · rename_i same
    exact congrArg some (List.cons.inj same).2.symm
  · rename_i other
    exact absurd rfl (other text)

theorem afterBreak?_none (within : isLineEnd char = false) : afterBreak? (char :: text) = none := by
  unfold afterBreak?
  split
  · rename_i same
    rw [(List.cons.inj same).1] at within
    cases within
  · rename_i same
    rw [(List.cons.inj same).1] at within
    cases within
  · rename_i same
    rw [(List.cons.inj same).1] at within
    cases within
  · rfl

theorem rest_eatNewline? (input : Input) : input.eatNewline?.map Input.rest = afterBreak? input.rest := by
  obtain ⟨pos, text⟩ := input
  change _ = afterBreak? text
  unfold afterBreak?
  split
  · rfl
  · rfl
  · rename_i other
    rename_i text
    cases text with
    | nil => rfl
    | cons char text =>
      have apart : char ≠ '\n' := fun same => other text (by rw [same])
      simp [Input.eatNewline?, Input.eatWord?, Input.startsWith, Input.eat?, Input.isAt, Input.isClass,
        Input.advance, apart.symm]
  · rename_i newline carriage
    cases text with
    | nil => rfl
    | cons char text =>
      have one : char ≠ '\n' := fun same => newline text (by rw [same])
      have other : char ≠ '\r' := fun same => carriage text (by rw [same])
      simp [Input.eatNewline?, Input.eatWord?, Input.startsWith, Input.eat?, Input.isAt, Input.isClass,
        one, other, other.symm]

/-- What is found some places ahead is found when they are passed. -/
theorem isClassAt_eq (class? : Char → Bool) (count : Nat) (input : Input) :
    input.isClassAt class? count = (input.advanceBy count).isClass class? := by
  unfold Input.isClassAt Input.peek? Input.isClass
  rw [Reading.rest_advanceBy, ← List.head?_drop]
  cases input.rest.drop count <;> rfl

theorem pos_advance {input : Input} (rest : input.rest = char :: text) :
    input.advance.pos = input.pos + byteLength [char] := by
  obtain ⟨pos, whole⟩ := input
  subst rest
  rfl

theorem pos_advanceBy (count : Nat) (input : Input) :
    (input.advanceBy count).pos = input.pos + byteLength (input.rest.take count) := by
  induction count generalizing input with
  | zero => rfl
  | succ count step =>
    rw [Input.advanceBy, step]
    obtain ⟨pos, text⟩ := input
    cases text with
    | nil => rw [List.take_nil, Input.advance, List.take_nil]
    | cons char text => exact Nat.add_assoc pos char.utf8Size _

/-- What is of a class begins with a character of the class. -/
theorem cons_of_isClass {input : Input} (found : input.isClass class? = true) :
    ∃ char text, input.rest = char :: text ∧ class? char = true := by
  unfold Input.isClass at found
  cases rest : input.rest with
  | nil =>
    rw [rest] at found
    cases found
  | cons char text =>
    rw [rest] at found
    exact ⟨char, text, rfl, found⟩

end

/-! Places of the two texts. -/

/-- Two places of which the second is where the first one is in the other text. -/
def Beside (spelling : Spelling) (first second : Input) : Prop := spelling.beside first.rest second.rest

/-- The same on a line that has begun. -/
def Inside (spelling : Spelling) (first second : Input) : Prop := spelling.inside first.rest second.rest

variable {spelling : Spelling} {first second : Input}

/-- Where everything stays as it is, the same stands between two places. -/
theorem textTo_kept (keeps : spelling.keeps) {stop final : Input} (beside : Beside spelling first second)
    (reached : first.Reaches stop) (arrived : second.Reaches final) (after : Beside spelling stop final) :
    second.textTo final.pos = first.textTo stop.pos := by
  obtain ⟨read, rest, -⟩ := id reached
  refine Input.textTo_of_reaches ?_ arrived |>.trans (Input.textTo_of_reaches rest reached).symm
  rw [spelling.same keeps beside, spelling.same keeps after, rest]

theorem textFrom_shift (pos stop count : Nat) (text : List Char) :
    Input.textFrom (pos + count) (stop + count) text = Input.textFrom pos stop text := by
  induction text generalizing pos with
  | nil => rfl
  | cons char text step =>
    rw [Input.textFrom, Input.textFrom, Nat.add_right_comm, step]
    exact if_congr Nat.add_lt_add_iff_right rfl rfl

/-- The same up to some bytes after a place. -/
theorem textTo_ahead (keeps : spelling.keeps) {start stop : Input} (beside : Beside spelling start stop)
    (reached : start.Reaches first) (arrived : stop.Reaches second) (after : Beside spelling first second)
    (count : Nat) : stop.textTo (second.pos + count) = start.textTo (first.pos + count) := by
  obtain ⟨read, rest, pos⟩ := reached
  obtain ⟨copy, others, place⟩ := arrived
  have whole : stop.rest = start.rest := spelling.same keeps beside
  have more : second.rest = first.rest := spelling.same keeps after
  obtain rfl : copy = read := by
    rw [rest, others, more] at whole
    exact List.append_cancel_right whole
  have offset (start : Input) : start.textTo (start.pos + byteLength copy + count) =
      Input.textFrom 0 (byteLength copy + count) start.rest := by
    unfold Input.textTo
    rw [← textFrom_shift 0 _ start.pos]
    congr 1 <;> omega
  rw [pos, place, offset, offset, whole]

theorem Inside.beside (inside : Inside spelling first second) : Beside spelling first second := spelling.weaken inside

namespace Beside

theorem heads (beside : Beside spelling first second) : Heads first.rest second.rest := spelling.heads beside

theorem isClass (blind : Blind class?) (beside : Beside spelling first second) :
    second.isClass class? = first.isClass class? := by
  have heads := beside.heads
  unfold Input.isClass
  generalize first.rest = text at heads
  generalize second.rest = other at heads
  cases heads with
  | nil => rfl
  | cons alike => exact blind.eq alike

theorem isAt (visible : isWhitespace char = false) (beside : Beside spelling first second) :
    second.isAt char = first.isAt char :=
  beside.isClass (solid_of_visible visible).blind

theorem atEnd (beside : Beside spelling first second) : second.atEnd = first.atEnd := by
  unfold Input.atEnd
  rw [Bool.eq_iff_iff, List.isEmpty_iff, List.isEmpty_iff, spelling.nil_iff beside]

theorem atLineEnd (beside : Beside spelling first second) : second.atLineEnd = first.atLineEnd := by
  unfold Input.atLineEnd
  rw [beside.atEnd, beside.isClass ⟨rfl, rfl⟩]

/-- After a character that is no blank. -/
theorem enter (solid : Solid class?) (found : first.isClass class? = true) (beside : Beside spelling first second) :
    Inside spelling first.advance second.advance := by
  obtain ⟨char, text, rest, inside⟩ := cons_of_isClass found
  unfold Beside at beside
  rw [rest] at beside
  obtain ⟨other, same, further⟩ := spelling.visible (solid.visible inside) beside
  unfold Inside
  rwa [Reading.rest_advance, Reading.rest_advance, rest, same]

theorem advance (solid : Solid class?) (found : first.isClass class? = true)
    (beside : Beside spelling first second) : Beside spelling first.advance second.advance :=
  (beside.enter solid found).beside

theorem advance_isAt (found : first.isAt char = true) (visible : isWhitespace char = false)
    (beside : Beside spelling first second) : Beside spelling first.advance second.advance :=
  beside.advance (solid_of_visible visible) found

theorem dropWhile (skips : Skips class?) (beside : Beside spelling first second) :
    Beside spelling (first.dropWhile class?) (second.dropWhile class?) := by
  unfold Beside
  rw [Input.rest_dropWhile, Input.rest_dropWhile]
  exact spelling.dropWhile skips beside

theorem skipSpacing (beside : Beside spelling first second) :
    Beside spelling first.skipSpacing second.skipSpacing :=
  beside.dropWhile ⟨rfl, rfl, rfl⟩

theorem skipWhitespace (beside : Beside spelling first second) :
    Beside spelling first.skipWhitespace second.skipWhitespace :=
  beside.dropWhile ⟨rfl, rfl, rfl⟩

theorem skipRestOfLine (beside : Beside spelling first second) :
    Beside spelling first.skipRestOfLine second.skipRestOfLine :=
  beside.dropWhile ⟨rfl, rfl, rfl⟩

theorem takeWhile (solid : Solid class?) (beside : Beside spelling first second) :
    second.takeWhile class? = first.takeWhile class? :=
  spelling.takeWhile solid beside

theorem startsWith {word : List Char} (visible : Visible word) (beside : Beside spelling first second) :
    second.startsWith word = first.startsWith word :=
  (spelling.word visible beside).1

theorem advanceBy {word : List Char} (found : first.startsWith word = true) (visible : Visible word)
    (beside : Beside spelling first second) :
    Beside spelling (first.advanceBy word.length) (second.advanceBy word.length) := by
  unfold Beside
  rw [Reading.rest_advanceBy, Reading.rest_advanceBy]
  exact ((spelling.word visible beside).2 found).1

theorem eatWord {word : List Char} (visible : Visible word) (beside : Beside spelling first second) :
    Option.Rel (Beside spelling) (first.eatWord? word) (second.eatWord? word) := by
  unfold Input.eatWord?
  rw [beside.startsWith visible]
  split
  · rename_i found
    exact .some (beside.advanceBy found visible)
  · exact .none

end Beside

end HtmlTemplate.Respelling
