import HtmlTemplate.Proofs.Respelling.Spellings

/-! Quoted strings that span lines, and what is read of two texts that differ in blanks: the same, unless a
quoted string spans lines in it. -/

namespace HtmlTemplate.Respelling

open CharClass

/-- Whether a place in an expression is in a quoted string. -/
inductive Quoting where
  | outside
  | inside (quote : Char)
  /-- After a backslash. -/
  | escaped (quote : Char)

namespace Quoting

def isQuote (char : Char) : Bool := char == '"' || char == '\''

theorem isQuote_iff {char : Char} : isQuote char = true ↔ char = '"' ∨ char = '\'' := by
  rw [isQuote, Bool.or_eq_true, beq_iff_eq, beq_iff_eq]

/-- After one more character; nowhere if it ends a line in a quoted string. -/
def step : Quoting → Char → Option Quoting
  | outside, char => some (if isQuote char then inside char else outside)
  | inside quote, char =>
    if isLineEnd char then none
    else some (if char = quote then outside else if char = '\\' then escaped quote else inside quote)
  | escaped quote, char => if isLineEnd char then none else some (inside quote)

/-- After some more text; nowhere if a line ends in a quoted string. -/
def scan (place : Quoting) (text : List Char) : Option Quoting := text.foldlM step place

end Quoting

/-- No quoted string in an expression spans lines. -/
def Unbroken (text : List Char) : Prop := (Quoting.outside.scan text).isSome

instance (text : List Char) : Decidable (Unbroken text) :=
  inferInstanceAs (Decidable ((Quoting.outside.scan text).isSome = true))

/-- Nothing in a text is quoted. -/
def Plain (text : List Char) : Prop := ∀ char ∈ text, Quoting.isQuote char = false

instance (text : List Char) : Decidable (Plain text) :=
  List.decidableBAll (Quoting.isQuote · = false) text

namespace Quoting

theorem scan_append (place : Quoting) (text more : List Char) :
    place.scan (text ++ more) = place.scan text >>= fun place => place.scan more :=
  List.foldlM_append

theorem scan_cons (place : Quoting) (char : Char) (text : List Char) :
    place.scan (char :: text) = place.step char >>= fun place => place.scan text :=
  List.foldlM_cons

theorem scan_plain {text : List Char} (plain : Plain text) : outside.scan text = some outside := by
  induction text with
  | nil => rfl
  | cons char text step =>
    obtain ⟨first, rest⟩ := List.forall_mem_cons.mp plain
    rw [scan_cons, Quoting.step, first]
    exact step rest

end Quoting

theorem Plain.append {text more : List Char} (first : Plain text) (second : Plain more) :
    Plain (text ++ more) :=
  List.forall_mem_append.mpr ⟨first, second⟩

/-! Places with nothing quoted between them. -/

/-- A character of a class that has no quotes. -/
theorem unquoted {class? : Char → Bool} (double : class? '"' = false) (single : class? '\'' = false) {char : Char}
    (inside : class? char = true) : Quoting.isQuote char = false := by
  have other : char ≠ '"' ∧ char ≠ '\'' := by
    constructor <;> rintro rfl
    · exact Bool.false_ne_true (double.symm.trans inside)
    · exact Bool.false_ne_true (single.symm.trans inside)
  simp [Quoting.isQuote, other.1, other.2]

/-- Nothing between two places is quoted. -/
def Clear (start stop : Input) : Prop := ∃ read, start.rest = read ++ stop.rest ∧ Plain read

namespace Clear

theorem refl (input : Input) : Clear input input := ⟨[], rfl, List.forall_mem_nil _⟩

theorem trans {start middle stop : Input} (first : Clear start middle) (second : Clear middle stop) :
    Clear start stop := by
  obtain ⟨read, rest, plain⟩ := first
  obtain ⟨more, further, clear⟩ := second
  exact ⟨read ++ more, by rw [rest, further, List.append_assoc], plain.append clear⟩

theorem advance {class? : Char → Bool} {input : Input} (found : input.isClass class? = true)
    (double : class? '"' = false) (single : class? '\'' = false) : Clear input input.advance := by
  unfold Clear
  rw [Reading.rest_advance]
  unfold Input.isClass at found
  generalize input.rest = text at found
  cases text with
  | nil => cases found
  | cons char text => exact ⟨[char], rfl, List.forall_mem_singleton.mpr (unquoted double single found)⟩

theorem advance_isAt {char : Char} {input : Input} (found : input.isAt char = true)
    (other : Quoting.isQuote char = false) : Clear input input.advance := by
  obtain ⟨double, single⟩ := Bool.or_eq_false_iff.mp other
  exact advance found (Bool.beq_comm.trans double) (Bool.beq_comm.trans single)

theorem dropWhile {class? : Char → Bool} (double : class? '"' = false) (single : class? '\'' = false)
    (input : Input) : Clear input (input.dropWhile class?) := by
  refine ⟨input.rest.takeWhile class?, ?_, fun char member => ?_⟩
  · rw [Input.rest_dropWhile]
    exact List.takeWhile_append_dropWhile.symm
  · exact unquoted double single (List.all_eq_true.mp List.all_takeWhile char member)

theorem skipSpacing (input : Input) : Clear input input.skipSpacing := dropWhile rfl rfl input

theorem skipWhitespace (input : Input) : Clear input input.skipWhitespace := dropWhile rfl rfl input

theorem advanceBy {word : List Char} {input : Input} (found : input.startsWith word = true)
    (plain : Plain word) : Clear input (input.advanceBy word.length) := by
  obtain ⟨rest, whole⟩ := List.isPrefixOf_iff_prefix.mp found
  refine ⟨word, ?_, plain⟩
  rw [Reading.rest_advanceBy, ← whole, List.drop_left]

theorem of_eatWord? {word : List Char} {input next : Input} (found : input.eatWord? word = some next)
    (plain : Plain word) : Clear input next := by
  unfold Input.eatWord? at found
  split at found
  · rename_i starts
    cases found
    exact advanceBy starts plain
  · cases found

theorem of_eat? {char : Char} {input next : Input} (found : input.eat? char = some next)
    (other : Quoting.isQuote char = false) : Clear input next := by
  unfold Input.eat? at found
  split at found
  · rename_i starts
    cases found
    exact advance_isAt starts other
  · cases found

theorem of_eatNewline? {input next : Input} (found : input.eatNewline? = some next) : Clear input next := by
  unfold Input.eatNewline? at found
  rcases Option.or_eq_some_iff.mp found with found | ⟨-, found⟩
  · exact of_eatWord? found (by decide)
  · rcases Option.or_eq_some_iff.mp found with found | ⟨-, found⟩
    · exact of_eat? found rfl
    · exact of_eat? found rfl

end Clear

/-! Reading side by side. -/

variable {spelling : Spelling}

/-- From some place a reader goes on to another one, beside one in the other text. Quoted strings that begin
in what is read end there, and it is the same in both texts if none of them spans lines. -/
structure Leads (spelling : Spelling) (first last final : Input) (same : Prop) : Prop where
  beside : Beside spelling last final
  read : ∃ read, first.rest = read ++ last.rest ∧
    ∀ place, Quoting.outside.scan read = some place → place = .outside ∧ same

namespace Leads

variable {first middle last second between final : Input} {same other : Prop}

theorem of_clear (beside : Beside spelling last final) (clear : Clear first last) :
    Leads spelling first last final True := by
  obtain ⟨read, rest, plain⟩ := clear
  refine ⟨beside, read, rest, fun place scanned => ⟨?_, trivial⟩⟩
  rw [Quoting.scan_plain plain] at scanned
  exact (Option.some.inj scanned).symm

theorem refl (beside : Beside spelling first second) : Leads spelling first first second True :=
  of_clear beside (.refl first)

theorem trans (here : Leads spelling first middle between same) (there : Leads spelling middle last final other) :
    Leads spelling first last final (same ∧ other) := by
  obtain ⟨-, read, rest, ends⟩ := here
  obtain ⟨beside, more, further, finishes⟩ := there
  refine ⟨beside, read ++ more, by rw [rest, further, List.append_assoc], fun place scanned => ?_⟩
  rw [Quoting.scan_append] at scanned
  obtain ⟨middle, scanned, goesOn⟩ := Option.bind_eq_some_iff.mp scanned
  obtain ⟨rfl, same⟩ := ends middle scanned
  obtain ⟨outside, other⟩ := finishes place goesOn
  exact ⟨outside, same, other⟩

theorem mono (leads : Leads spelling first last final same) (more : same → other) :
    Leads spelling first last final other := by
  obtain ⟨beside, read, rest, ends⟩ := leads
  refine ⟨beside, read, rest, fun place scanned => ?_⟩
  obtain ⟨outside, same⟩ := ends place scanned
  exact ⟨outside, more same⟩

/-- Before what is read there is something in which nothing is quoted. -/
theorem after (leads : Leads spelling middle last final same) (clear : Clear first middle) :
    Leads spelling first last final same := by
  obtain ⟨beside, read, rest, ends⟩ := leads
  obtain ⟨before, start, plain⟩ := clear
  refine ⟨beside, before ++ read, by rw [start, rest, List.append_assoc], fun place scanned => ?_⟩
  rw [Quoting.scan_append, Quoting.scan_plain plain] at scanned
  exact ends place scanned

/-- After what is read there is something in which nothing is quoted. -/
theorem before (leads : Leads spelling first middle between same) (clear : Clear middle last)
    (beside : Beside spelling last final) : Leads spelling first last final same :=
  (leads.trans (.of_clear beside clear)).mono And.left

/-- What is between two places is the same if no quoted string spans lines there. -/
theorem of_unbroken (leads : Leads spelling first last final same) (reached : first.Reaches last)
    (unbroken : Unbroken (first.textTo last.pos)) : same := by
  obtain ⟨-, read, rest, ends⟩ := leads
  rw [Input.textTo_of_reaches rest reached] at unbroken
  obtain ⟨place, scanned⟩ := Option.isSome_iff_exists.mp unbroken
  exact (ends place scanned).2

end Leads

/-- Two readers both fail, with corresponding faults, or both succeed, with corresponding values. -/
inductive Both {ε δ α β : Type} (faults : ε → δ → Prop) (values : α → β → Prop) :
    Except ε α → Except δ β → Prop where
  | ok {value : α} {other : β} (related : values value other) : Both faults values (.ok value) (.ok other)
  | error {error : ε} {other : δ} (same : faults error other) : Both faults values (.error error) (.error other)

namespace Both

variable {ε δ α β α' β' : Type} {faults : ε → δ → Prop} {values : α → β → Prop} {others : α' → β' → Prop}
  {first : Except ε α} {second : Except δ β}

theorem bind {next : α → Except ε α'} {follow : β → Except δ β'} (both : Both faults values first second)
    (goesOn : ∀ value other, values value other → Both faults others (next value) (follow other)) :
    Both faults others (first >>= next) (second >>= follow) := by
  cases both with
  | ok related => exact goesOn _ _ related
  | error same => exact .error same

/-- Only the second reader goes on. -/
theorem follow {follow : β → Except δ β'} {others : α → β' → Prop} (both : Both faults values first second)
    (goesOn : ∀ value other, values value other → Both faults others (.ok value) (follow other)) :
    Both faults others first (second >>= follow) := by
  cases both with
  | ok related => exact goesOn _ _ related
  | error same => exact .error same

theorem map {change : α → α'} {switch : β → β'} (both : Both faults values first second)
    (changes : ∀ value other, values value other → others (change value) (switch other)) :
    Both faults others (first.map change) (second.map switch) := by
  cases both with
  | ok related => exact .ok (changes _ _ related)
  | error same => exact .error same

theorem mono {later : α → β → Prop} (both : Both faults values first second)
    (more : ∀ value other, values value other → later value other) : Both faults later first second := by
  cases both with
  | ok related => exact .ok (more _ _ related)
  | error same => exact .error same

/-- Two readers that choose alike. -/
theorem ite {choice : Prop} [Decidable choice] {other : Except ε α} {another : Except δ β}
    (holds : choice → Both faults values first second) (fails : ¬ choice → Both faults values other another) :
    Both faults values (if choice then first else other) (if choice then second else another) := by
  by_cases chosen : choice
  · rw [if_pos chosen, if_pos chosen]
    exact holds chosen
  · rw [if_neg chosen, if_neg chosen]
    exact fails chosen

/-- The values are those that have been read. -/
theorem known (both : Both faults values first second) :
    Both faults (fun value other => values value other ∧ first = .ok value ∧ second = .ok other) first second := by
  cases both with
  | ok related => exact .ok ⟨related, rfl, rfl⟩
  | error same => exact .error same

end Both

end HtmlTemplate.Respelling
