import HtmlTemplate.Proofs.Offsets.Templates
import HtmlTemplate.Proofs.Reading.Basic

/-! The loops of the readers of expressions, round by round. A round either ends its loop or goes on past the place
where it began. So a loop is over after no more rounds than there are characters, and one for the end. -/

namespace HtmlTemplate

/-- What one round of a loop comes to: the result, or a state to go on from and what is made of the result then. -/
inductive Round (State Result : Type) where
  | ended (result : Result)
  | again (next : State) (finish : Result → Result)

/-- The rounds of a loop, and the place of a text that the loop is at in a state. -/
structure Loop (State Result : Type) where
  place : State → Input
  round : State → Round State Result

namespace Round

variable {State Result : Type}

/-- The result after one round, if a reader gives it for the state that the round goes on from. -/
def close (reader : State → Result) : Round State Result → Result
  | ended result => result
  | again next finish => finish (reader next)

/-- The round ends the loop or goes on past a place. -/
def Advances (place : State → Input) (start : Input) : Round State Result → Prop
  | ended _ => True
  | again next _ => start.Passes (place next)

/-- A round goes on with what has been read, or the loop ends with its fault. -/
def attempt {ε α β : Type} (result : Except ε α) (next : α → Round State (Except ε β)) :
    Round State (Except ε β) :=
  match result with
  | .error error => ended (.error error)
  | .ok value => next value

theorem close_attempt {ε α β : Type} (reader : State → Except ε β) (result : Except ε α)
    (next : α → Round State (Except ε β)) :
    (attempt result next).close reader = result >>= fun value => (next value).close reader := by
  cases result <;> rfl

theorem close_ite (reader : State → Result) (chosen : Prop) [Decidable chosen] (yes no : Round State Result) :
    (if chosen then yes else no).close reader = if chosen then yes.close reader else no.close reader :=
  apply_ite (close reader) chosen yes no

namespace Advances

variable {place : State → Input} {start : Input}

theorem ite {chosen : Prop} [Decidable chosen] {yes no : Round State Result}
    (held : chosen → yes.Advances place start) (failed : ¬chosen → no.Advances place start) :
    (if chosen then yes else no).Advances place start := by
  split
  · exact held ‹_›
  · exact failed ‹_›

theorem attempt {ε α β : Type} {result : Except ε α} {next : α → Round State (Except ε β)}
    (goesOn : ∀ value, result = .ok value → (next value).Advances place start) :
    (attempt result next).Advances place start := by
  cases result with
  | error error => trivial
  | ok value => exact goesOn value rfl

end Advances

end Round

namespace Loop

variable {State Result : Type} {loop : Loop State Result} {reader : State → Result}

/-- The result of a loop, if it is over after so many rounds. -/
def run (loop : Loop State Result) : Nat → State → Option Result
  | 0, _ => none
  | rounds + 1, state =>
    match loop.round state with
    | .ended result => some result
    | .again next finish => (loop.run rounds next).map finish

/-- A reader is a loop, every round of which ends it or goes on past the place where the round began. -/
structure Drives (loop : Loop State Result) (reader : State → Result) : Prop where
  whole : ∀ state, reader state = (loop.round state).close reader
  forward : ∀ state, (loop.round state).Advances loop.place (loop.place state)

/-- Every round of a loop ends it or goes on past the place where the round began; and the loop ends, with what a
reader gives, after at most one round for every character that is left and one more. -/
structure Halts (loop : Loop State Result) (reader : State → Result) : Prop where
  forward : ∀ state next finish, loop.round state = .again next finish → (loop.place state).Passes (loop.place next)
  ends : ∀ state, loop.run ((loop.place state).size + 1) state = some (reader state)

theorem Drives.run_eq (drives : loop.Drives reader) (state : State) (rounds : Nat)
    (enough : (loop.place state).size < rounds) : loop.run rounds state = some (reader state) := by
  induction rounds generalizing state with
  | zero => omega
  | succ rounds step =>
    have whole := drives.whole state
    have forward := drives.forward state
    rw [run]
    cases round : loop.round state with
    | ended result =>
      rw [round] at whole
      exact congrArg some whole.symm
    | again next finish =>
      rw [round] at whole forward
      have shorter : (loop.place next).size < (loop.place state).size := forward.2
      dsimp only
      rw [step next (by omega)]
      exact congrArg some whole.symm

theorem Drives.halts (drives : loop.Drives reader) : loop.Halts reader := by
  refine ⟨fun state next finish round => ?_, fun state => drives.run_eq state _ (Nat.lt_succ_self _)⟩
  have forward := drives.forward state
  rw [round] at forward
  exact forward

end Loop

theorem Input.Reaches.passes {start middle stop : Input} (reached : start.Reaches middle)
    (later : middle.Passes stop) : start.Passes stop :=
  ⟨reached.trans later.1, Nat.lt_of_lt_of_le later.2 reached.size_le⟩

/-- What has been read and the place after it. -/
def Parsed.bare {α : Type} {start : Input} (parsed : Parsed α start) : α × Input := (parsed.value, parsed.rest)

/-- The result of a reader, without the way to the place after it. -/
def bare {ε α : Type} {start : Input} (result : Except ε (Parsed α start)) : Except ε (α × Input) :=
  result.map Parsed.bare

/-- Changes the value that has been read, and not the place. -/
def changed {ε α : Type} (change : α → α) (result : Except ε (α × Input)) : Except ε (α × Input) :=
  result.map (Prod.map change id)

theorem bare_bind {ε α β : Type} {start : Input} (result : Except ε α) (next : α → Except ε (Parsed β start)) :
    bare (result >>= next) = result >>= fun value => bare (next value) := by
  cases result <;> rfl

theorem bare_ite {ε α : Type} {start : Input} (chosen : Prop) [Decidable chosen]
    (yes no : Except ε (Parsed α start)) : bare (if chosen then yes else no) = if chosen then bare yes else bare no :=
  apply_ite bare chosen yes no

/-- What is read after a place, seen from an earlier one. -/
theorem bare_widen {ε α : Type} {start middle : Input} (result : Except ε (Parsed α middle))
    (reached : start.Reaches middle) : bare (result.map (.widen reached)) = bare result := by
  cases result <;> rfl

/-- What is read after a place and added to, seen from an earlier one. -/
theorem bare_changed {ε α : Type} {start middle : Input} (change : α → α) (result : Except ε (Parsed α middle))
    (reached : start.Reaches middle) :
    bare (result.map fun parsed => (parsed.map change).widen reached) = changed change (bare result) := by
  cases result <;> rfl

namespace Progress

open CharClass

/-! Characters, blank lines and continuations. -/

/-- Characters of a class are stepped over. -/
def dropping (class? : Char → Bool) : Loop Input Input where
  place := id
  round input :=
    if input.isClass class? then .again input.advance id else .ended input

theorem dropping_drives (class? : Char → Bool) : (dropping class?).Drives (Input.dropWhile class?) := by
  constructor
  · intro input
    obtain ⟨pos, _ | ⟨char, rest⟩⟩ := input
    · rfl
    · simp only [dropping, Round.close_ite]
      rw [Input.dropWhile, Input.dropFrom]
      rfl
  · intro input
    exact .ite Input.passes_advance_of_isClass fun _ => trivial

/-- Spacing, and line ends with blank lines or a continuation after them, are skipped. -/
def skipping (continuation : List Char) (complete : Bool) : Loop (Option Input × Input) (Input × Bool) where
  place := Prod.snd
  round := fun (lineEnd, input) =>
    let spaced := input.skipSpacing
    if spaced.isClass isLineEnd then
      let stop := lineEnd.getD spaced
      match Gap.blankLine? spaced with
      | some next => .again (some stop, next) id
      | none =>
        if complete ∨ continuation = [] then .ended (stop, false)
        else match spaced.eatWord? continuation with
          | none => .ended (stop, false)
          | some next => .again (none, next) id
    else .ended (spaced, !spaced.atEnd)

theorem skipping_drives (continuation : List Char) (complete : Bool) :
    (skipping continuation complete).Drives fun (lineEnd, input) =>
      Gap.skipContinued continuation complete lineEnd input := by
  constructor
  · rintro ⟨lineEnd, input⟩
    dsimp only [skipping]
    rw [Reading.skipContinued_eq, Round.close_ite]
    refine ite_congr rfl (fun _ => ?_) fun _ => rfl
    dsimp only
    cases Gap.blankLine? input.skipSpacing with
    | some next => rfl
    | none =>
      dsimp only
      rw [Round.close_ite]
      refine ite_congr rfl (fun _ => rfl) fun _ => ?_
      cases input.skipSpacing.eatWord? continuation <;> rfl
  · rintro ⟨lineEnd, input⟩
    have spaced := Input.reaches_skipSpacing input
    refine .ite (fun _ => ?_) fun _ => trivial
    split
    · exact spaced.passes (Gap.passes_of_blankLine? ‹_›)
    · refine .ite (fun _ => trivial) fun goesOn => ?_
      split
      · trivial
      · exact spaced.passes (Input.passes_of_eatWord? (fun empty => goesOn (.inr empty)) ‹_›)

/-- The characters of a string, up to its closing quote. -/
def characters (quote : Char) (start : Nat) : Loop (List Char × Input) (Except ParseError (List Char × Input)) where
  place := Prod.snd
  round := fun (read, input) =>
    match input.rest with
    | [] => .ended (.error ⟨.unterminatedString, start, input.pos⟩)
    | char :: _ =>
      if char = quote then .ended (.ok (read.reverse, input.advance))
      else if char = '\\' then
        .attempt (Literal.readEscape start input.advance) fun escaped =>
          .again (escaped.value :: read, escaped.rest) id
      else .again (char :: read, input.advance) id

theorem characters_drives (quote : Char) (start : Nat) :
    (characters quote start).Drives fun (read, input) => bare (Literal.readChars quote start read input) := by
  constructor
  · rintro ⟨read, ⟨pos, _ | ⟨char, rest⟩⟩⟩
    · dsimp only
      rw [Literal.readChars.eq_def]
      rfl
    · dsimp only [characters]
      rw [Literal.readChars.eq_def, Round.close_ite, Round.close_ite, Round.close_attempt]
      dsimp only
      rw [bare_ite, bare_ite, bare_bind]
      refine ite_congr rfl (fun _ => rfl) fun _ => ite_congr rfl (fun _ => ?_) fun _ => ?_
      · exact congrArg _ (funext fun escaped => bare_widen _ _)
      · exact bare_widen _ _
  · rintro ⟨read, ⟨pos, _ | ⟨char, rest⟩⟩⟩
    · trivial
    · have advanced : Input.Passes ⟨pos, char :: rest⟩ (Input.advance ⟨pos, char :: rest⟩) :=
        Input.passes_advance (Nat.zero_lt_succ _)
      refine .ite (fun _ => trivial) fun _ => .ite (fun _ => .attempt fun escaped _ => ?_) fun _ => advanced
      exact advanced.of_reaches escaped.reached

/-! Leading operators, and operators with their right sides. -/

/-- An operand after its leading operators. -/
def leading (options : ParseOptions) (op : Op) : Loop Input (Except ParseError (Expr × Input)) where
  place := id
  round input :=
    .attempt (OperatorReading.readLeading options input) fun
      | some (mark, next) =>
        let gap := Gap.skip options false next
        if !gap.2 then .ended (.error (.here .missingOperand gap.1.pos))
        else .again gap.1 (changed (Parser.lead mark))
      | none =>
        match input.rest with
        | [] => .ended (bare (Parser.readValue op input))
        | char :: _ =>
          match Enclosure.ofOpening? char with
          | some enclosure => .ended (bare (Parser.readGroup options enclosure input.advance))
          | none => .ended (bare (Parser.readValue op input))

theorem leading_drives (options : ParseOptions) (op : Op) :
    (leading options op).Drives fun input => bare (Parser.readLed options op input) := by
  constructor
  · intro input
    dsimp only [leading]
    cases found : OperatorReading.readLeading options input with
    | error error =>
      rw [Reading.readLed_failed found]
      rfl
    | ok marked =>
      cases marked with
      | some marked =>
        obtain ⟨mark, next⟩ := marked
        obtain ⟨reached, whole⟩ := Reading.readLed_marked found op
        rw [whole, bare_ite]
        dsimp only [Round.attempt]
        rw [Round.close_ite]
        refine ite_congr rfl (fun _ => rfl) fun _ => ?_
        exact bare_changed (Parser.lead mark) _ reached
      | none =>
        rw [Reading.readLed_unmarked found]
        dsimp only [Round.attempt, Round.close]
        cases input.rest with
        | nil => rfl
        | cons char rest =>
          dsimp only
          cases Enclosure.ofOpening? char with
          | none => rfl
          | some enclosure => exact bare_widen _ _
  · intro input
    refine .attempt fun marked found => ?_
    cases marked with
    | none =>
      dsimp only
      split
      · trivial
      · split <;> trivial
    | some marked =>
      refine .ite (fun _ => trivial) fun _ => ?_
      exact (OperatorReading.passes_of_readLeading found).of_reaches (Gap.reaches_skip ..)

/-- The operators after an operand and their right sides, up to a closing mark or the end of the expression. -/
def operators (options : ParseOptions) (close : Option Char) :
    Loop (Expr × Input) (Except ParseError (Expr × Input)) where
  place := Prod.snd
  round := fun (tree, input) =>
    let complete := close.isNone
    let gap := Gap.skip options complete input
    let finish := bare (Reading.finish close tree (Gap.reaches_skip options complete input))
    if !gap.2 then .ended finish
    else if close.any fun mark => gap.1.isAt mark then .ended (.ok (tree, gap.1))
    else .attempt (OperatorReading.read options close.isSome gap.1) fun
      | none => .ended finish
      | some (op, next) => .attempt (Parser.readApplied options tree op next) fun applied =>
        .again (applied.value, applied.rest) id

theorem operators_drives (options : ParseOptions) (close : Option Char) :
    (operators options close).Drives fun (tree, input) => bare (Parser.readOperators options close tree input) := by
  constructor
  · rintro ⟨tree, input⟩
    dsimp only [operators]
    cases goesOn : (Gap.skip options close.isNone input).2 with
    | false =>
      rw [Reading.readOperators_ended tree (.inl goesOn)]
      rfl
    | true =>
      cases closed : close.any fun mark => (Gap.skip options close.isNone input).1.isAt mark with
      | true =>
        rw [Reading.readOperators_closed tree goesOn closed]
        rfl
      | false =>
        rw [if_neg (by decide), if_neg Bool.false_ne_true]
        cases found : OperatorReading.read options close.isSome (Gap.skip options close.isNone input).1 with
        | error error =>
          rw [Reading.readOperators_failed tree goesOn closed found]
          rfl
        | ok marked =>
          cases marked with
          | none =>
            rw [Reading.readOperators_ended tree (.inr ⟨closed, found⟩)]
            rfl
          | some marked =>
            obtain ⟨op, next⟩ := marked
            obtain ⟨reached, whole⟩ := Reading.readOperators_applied tree goesOn closed found
            change _ = (Round.attempt (Parser.readApplied options tree op next) _).close _
            rw [whole, bare_bind, Round.close_attempt]
            refine congrArg _ (funext fun applied => ?_)
            exact bare_widen _ _
  · rintro ⟨tree, input⟩
    refine .ite (fun _ => trivial) fun _ => .ite (fun _ => trivial) fun _ => .attempt fun marked found => ?_
    cases marked with
    | none => trivial
    | some marked =>
      refine .attempt fun applied _ => ?_
      exact (Gap.reaches_skip ..).passes ((OperatorReading.passes_of_read found).of_reaches applied.reached)

/-! Whole expressions. -/

/-- From any place between two characters on, an expression ends there or later, whether it can be read or not. -/
theorem parseAt_ends (options : ParseOptions) (before after : List Char) :
    ∃ stop, byteLength before ≤ stop ∧ IsBoundary (before ++ after) stop ∧
      ((∃ tree, Expr.parseAt options (before ++ after) (byteLength before) = .ok (tree, stop)) ∨
        ∃ error, Expr.parseAt options (before ++ after) (byteLength before) = .error error ∧ error.reached = stop) := by
  have within : byteLength before ≤ byteLength (before ++ after) := by
    rw [byteLength_append]
    omega
  have origin : (Input.ofText (before ++ after)).Reaches ⟨byteLength before, after⟩ :=
    ⟨before, rfl, (Nat.zero_add _).symm⟩
  have later {place : Input} (reached : Input.Reaches ⟨byteLength before, after⟩ place) :
      byteLength before ≤ place.pos ∧ IsBoundary (before ++ after) place.pos := by
    obtain ⟨read, -, pos⟩ := id reached
    exact ⟨pos ▸ Nat.le_add_right .., Offsets.isBoundary_of_reaches (origin.trans reached)⟩
  have parsed : Expr.parseAt options (before ++ after) (byteLength before) =
      (Expr.parseFrom options ⟨byteLength before, after⟩).map fun parsed => (parsed.value, parsed.rest.pos) := by
    rw [Expr.parseAt, Nat.min_eq_left within, dropBytes?_append]
  have tells := Offsets.parseFrom_tells options (.refl (⟨byteLength before, after⟩ : Input))
  rw [parsed]
  cases read : Expr.parseFrom options ⟨byteLength before, after⟩ with
  | ok parsed =>
    obtain ⟨ordered, stops⟩ := later parsed.reached
    exact ⟨parsed.rest.pos, ordered, stops, .inl ⟨parsed.value, rfl⟩⟩
  | error error =>
    obtain ⟨place, reached, pos⟩ := (tells.of_eq read).2
    obtain ⟨ordered, stops⟩ := later reached
    exact ⟨place.pos, ordered, stops, .inr ⟨error, rfl, pos.symm⟩⟩

end Progress

end HtmlTemplate
