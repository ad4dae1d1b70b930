import HtmlTemplate.Proofs.Content.Shapes
import HtmlTemplate.Proofs.Reading.Basic

/-! Where lines stand: each begins on the line of the source it is read from, and ends there too if no
line ends in what is written in it. -/

namespace HtmlTemplate

open CharClass

namespace Input

/-- The second place comes after the first, and no line ends between them. -/
def Along (start stop : Input) : Prop :=
  ∃ read, start.rest = read ++ stop.rest ∧ stop.pos = start.pos + byteLength read ∧
    ∀ char ∈ read, isLineEnd char = false

namespace Along

theorem refl (input : Input) : input.Along input := ⟨[], rfl, rfl, List.forall_mem_nil _⟩

theorem trans {start middle stop : Input} (first : start.Along middle) (second : middle.Along stop) :
    start.Along stop := by
  obtain ⟨read, rest, pos, flat⟩ := first
  obtain ⟨more, moreRest, morePos, further⟩ := second
  refine ⟨read ++ more, by simp [rest, moreRest], ?_, List.forall_mem_append.mpr ⟨flat, further⟩⟩
  rw [morePos, pos, byteLength_append, Nat.add_assoc]

/-- No line ends in characters of a class that no line end is of. -/
theorem dropWhile {class? : Char → Bool} (newline : class? '\n' = false) (carriage : class? '\r' = false)
    (input : Input) : input.Along (input.dropWhile class?) := by
  obtain ⟨read, rest, pos⟩ := reaches_dropWhile class? input
  have taken : input.rest.takeWhile class? ++ (input.dropWhile class?).rest = input.rest := by
    rw [rest_dropWhile]
    exact List.takeWhile_append_dropWhile
  have same : read = input.rest.takeWhile class? :=
    List.append_cancel_right (rest.symm.trans taken.symm)
  refine ⟨read, rest, pos, fun char member => Bool.eq_false_iff.mpr fun ends => ?_⟩
  rw [same] at member
  have inside : class? char = true := List.all_eq_true.mp List.all_takeWhile char member
  simp only [isLineEnd, Bool.or_eq_true, beq_iff_eq] at ends
  rcases ends with rfl | rfl
  · exact ne_true_of_eq_false newline inside
  · exact ne_true_of_eq_false carriage inside

theorem of_isAt {input : Input} {char : Char} (found : input.isAt char = true)
    (within : isLineEnd char = false) : input.Along input.advance := by
  obtain ⟨pos, text⟩ := input
  cases text with
  | nil => cases found
  | cons first rest =>
    obtain rfl : first = char := beq_iff_eq.mp found
    exact ⟨[first], rfl, rfl, List.forall_mem_singleton.mpr within⟩

theorem skipSpacing (input : Input) : input.Along input.skipSpacing := dropWhile rfl rfl input

theorem skipRestOfLine (input : Input) : input.Along input.skipRestOfLine := dropWhile rfl rfl input

theorem of_textTo {start stop : Input} (reached : start.Reaches stop)
    (flat : ∀ char ∈ start.textTo stop.pos, isLineEnd char = false) : start.Along stop := by
  obtain ⟨read, rest, pos⟩ := reached
  rw [textTo, rest, pos, textFrom_append] at flat
  exact ⟨read, rest, pos, flat⟩

end Along

end Input

namespace Line

open Token

/-- A line that is read from a place on, up to another one. -/
structure Lays (start : Input) (token : Token) (rest : Input) : Prop where
  begins : ∃ place, start.Along place ∧ token.span.start = place.pos
  /-- No line ends in what is read if none ends in the text of the line. -/
  ends : (∀ char ∈ token.text.toList, isLineEnd char = false) → start.Along rest

/-- What is read, if anything is, is a line that begins here. -/
def Lies {input : Input} (start : Input) : Except LexError (Parsed Token input) → Prop
  | .ok parsed => Lays start parsed.value parsed.rest
  | .error _ => True

namespace Lies

variable {start input : Input}

theorem bind {γ : Type} {program : Except LexError γ} {next : γ → Except LexError (Parsed Token input)}
    (goesOn : ∀ value, program = .ok value → Lies start (next value)) : Lies start (program >>= next) := by
  cases program with
  | error error => trivial
  | ok value => exact goesOn value rfl

theorem of_eq {program : Except LexError (Parsed Token input)} (lies : Lies start program)
    {parsed : Parsed Token input} (read : program = .ok parsed) :
    Lays start parsed.value parsed.rest := by
  rw [read] at lies
  exact lies

theorem widen {later : Input} (reached : input.Reaches later)
    {program : Except LexError (Parsed Token later)} (lies : Lies start program) :
    Lies start (do return (← program).widen reached) :=
  .bind fun _ read => lies.of_eq read

end Lies

variable {start : Input}

/-- A line with the text between two places. -/
theorem lays_between {rest : Input} (reached : start.Reaches rest) {token : Token}
    (begins : token.span.start = start.pos) (text : token.text = String.ofList (start.textTo rest.pos)) :
    Lays start token rest := by
  refine ⟨⟨start, .refl start, begins⟩, fun flat => .of_textTo reached ?_⟩
  rwa [text, String.toList_ofList] at flat

theorem lays_complete {kind : TokenKind} (parts : Parsed (List Token) start) :
    Lays start (complete kind parts).value (complete kind parts).rest :=
  lays_between parts.reached rfl rfl

theorem readPlain_lies (input : Input) : Lies input (readPlain input) := by
  unfold readPlain
  cases Inline.readText input with
  | error error => trivial
  | ok parts => exact lays_complete parts

theorem readComment_lies (input : Input) : Lies input (readComment input) := by
  unfold readComment
  split
  · exact lays_complete _
  · exact .bind fun _ _ => lays_complete _

theorem readPiped_lies (input : Input) : Lies input (readPiped input) :=
  .bind fun _ _ => lays_complete _

theorem readOutput_lies (markLength : Nat) (kind : TokenKind) (input : Input) :
    Lies input (readOutput markLength kind input) := by
  unfold readOutput
  dsimp only
  split
  · exact lays_complete _
  · apply Lies.bind
    intro output _
    split
    · exact lays_complete _
    · trivial

theorem readCode_lies (lineStart input : Input) : Lies input (readCode lineStart input) := by
  unfold readCode
  split
  · exact .bind fun _ _ => lays_complete _
  · exact .bind fun _ _ => lays_complete _

theorem readMixinCall_lies (input : Input) : Lies input (readMixinCall input) := by
  unfold readMixinCall
  dsimp only
  split
  · trivial
  · apply Lies.bind
    intro arguments _
    split
    · refine lays_between ?_ rfl rfl
      exact (Input.reaches_advance _).trans ((Input.reaches_skipSpacing _).trans
        ((Input.reaches_dropWhile ..).trans (arguments.reached.trans (Input.reaches_skipSpacing _))))
    · trivial

theorem readStatement_lies (kind : TokenKind) {input : Input} (reached : start.Reaches input) :
    Lies start (readStatement kind start input) := by
  unfold readStatement
  apply Lies.bind
  intro expr _
  split
  · exact lays_between (reached.trans expr.reached) rfl rfl
  · trivial

theorem readMixinDefinition_lies {input : Input} (reached : start.Reaches input) :
    Lies start (readMixinDefinition start input) := by
  unfold readMixinDefinition
  apply Lies.bind
  intro definition read
  have lays := (readStatement_lies .mixinControl reached).of_eq read
  split
  · exact lays
  · trivial

theorem readEach_lies {input : Input} (reached : start.Reaches input) :
    Lies start (readEach start input) := by
  unfold readEach
  dsimp only
  split
  · trivial
  · apply Lies.bind
    intro second _
    split
    · apply Lies.bind
      intro source _
      refine lays_between ?_ rfl rfl
      exact reached.trans ((Input.reaches_dropWhile ..).trans (second.reached.trans
        ((Input.reaches_advanceBy ..).trans ((Input.reaches_skipSpacing _).trans source.reached))))
    · trivial

theorem readTarget_lays (kind : TokenKind) {input : Input} (along : start.Along input) :
    Lays start (readTarget kind input).value (readTarget kind input).rest :=
  ⟨⟨input, along, rfl⟩, fun _ => along.trans (.skipRestOfLine input)⟩

theorem readKeyword_lies (keyword : Keyword) {input : Input} (along : start.Along input)
    (reached : start.Reaches input) : Lies start (readKeyword keyword start input) := by
  cases keyword with
  | includeTarget =>
    unfold readKeyword
    dsimp only
    split
    · trivial
    · exact readTarget_lays _ along
  | doctype => exact readTarget_lays _ along
  | mixin => exact readMixinDefinition_lies reached
  | statement kind => exact readStatement_lies kind reached
  | each => exact readEach_lies reached

theorem readElseIf_lies {input : Input} (reached : start.Reaches input) :
    Lies start (readElseIf start input) := by
  unfold readElseIf
  dsimp only
  split
  · trivial
  · exact .widen _ (readStatement_lies .elseIfControl
      (reached.trans ((Input.reaches_advanceBy ..).trans (Input.reaches_skipSpacing _))))

theorem readAlone_lies (kind : TokenKind) (fault : LexFault) (stop : Input) {input : Input}
    (along : start.Along input) : Lies start (readAlone kind fault start stop input) := by
  unfold readAlone
  split
  · exact ⟨⟨start, .refl start, rfl⟩, fun _ => along⟩
  · trivial

theorem readWord_lies (input : Input) : Lies input (readWord input) := by
  have word : input.Along (input.dropWhile isTagWord) := .dropWhile rfl rfl input
  have along := word.trans (.skipSpacing _)
  have reached : input.Reaches (input.dropWhile isTagWord).skipSpacing :=
    (Input.reaches_dropWhile ..).trans (Input.reaches_skipSpacing _)
  unfold readWord
  dsimp only
  split
  · exact .widen _ (readKeyword_lies _ along reached)
  · split
    · exact .widen _ (readElseIf_lies reached)
    · split
      · exact .widen _ (readAlone_lies _ _ _ along)
      · split
        · exact .widen _ (readAlone_lies _ _ _ along)
        · split
          · exact ⟨⟨_, along, rfl⟩, fun _ => along⟩
          · exact .bind fun _ _ => lays_complete _

theorem readNameless_lies (input : Input) : Lies input (readNameless input) :=
  .bind fun _ _ => lays_complete _

theorem read_lies (lineStart input : Input) : Lies input (Line.read lineStart input) := by
  unfold Line.read
  dsimp only
  split
  · exact readComment_lies input
  · split
    · exact readWord_lies input
    · split
      · exact readNameless_lies input
      · split
        · exact lays_complete _
        · split
          · exact readPiped_lies input
          · split
            · exact readOutput_lies 1 _ input
            · split
              · exact readOutput_lies 2 _ input
              · split
                · exact readCode_lies lineStart input
                · split
                  · exact readMixinCall_lies input
                  · split
                    · exact lays_complete _
                    · trivial

end Line

end HtmlTemplate
