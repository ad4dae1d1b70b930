import HtmlTemplate.Proofs.Respelling.Statements
import HtmlTemplate.Proofs.Respelling.Texts

/-! What stands between two places in two texts that differ in blanks. Where the second text goes on the same
from, what comes before it is what the first one has there with other blanks. So it is with the lines of a block of
code, which start with spacing that differs so, too. -/

namespace HtmlTemplate.Respelling

open CharClass Code

variable {style : Style} {place twin : Place} {text other run copy one two : List Char}

/-! A text is written in one way. -/

/-- What stands for a character depends only on whether the line has begun. -/
theorem Style.spell_congr (style : Style) (meet : place = .margin ↔ twin = .margin) (char : Char) :
    style.spell place char = style.spell twin char := by
  cases style with
  | spaces wide positive => simp only [spell, meet]
  | breaks paired => rfl

theorem Place.next_congr (meet : place = margin ↔ twin = margin) (char : Char) :
    place.next char = margin ↔ twin.next char = margin := by
  unfold next
  split
  · exact Iff.rfl
  · split
    · simp only [meet]
    · exact Iff.rfl

namespace Respelled

theorem unique (meet : place = .margin ↔ twin = .margin) (first : Respelled style place text one)
    (second : Respelled style twin text two) : one = two := by
  induction first generalizing twin two with
  | nil =>
    cases second
    rfl
  | cons fits rest step =>
    cases second with
    | cons others more =>
      rw [style.spell_congr meet, step (Place.next_congr meet _) more]

theorem unique_of_breaks {paired : Bool} (first : Respelled (.breaks paired) place text one)
    (second : Respelled (.breaks paired) twin text two) : one = two := by
  induction first generalizing twin two with
  | nil =>
    cases second
    rfl
  | cons fits rest step =>
    cases second with
    | cons others more =>
      rw [step more]
      rfl

variable {wide : Nat} {positive : 0 < wide}

/-- What is written at the start of a line and what is written within one differ in tabs before all else. -/
theorem tabs_of_spaces (inside : place ≠ .margin) (first : Respelled (.spaces wide positive) place text one)
    (second : Respelled (.spaces wide positive) .margin text two) : ∃ count rest,
      one = List.replicate count '\t' ++ rest ∧ two = List.replicate (count * wide) ' ' ++ rest := by
  induction first generalizing two with
  | nil =>
    cases second
    exact ⟨0, [], rfl, by rw [Nat.zero_mul]; rfl⟩
  | @cons place char text other fits rest step =>
    cases second with
    | @cons _ _ _ two begins more =>
      by_cases tab : char = '\t'
      · subst tab
        have within : place.next '\t' ≠ .margin := Place.next_ne_margin rfl fun _ => inside
        obtain ⟨count, common, rfl, rfl⟩ := step within more
        have spelled : (Style.spaces wide positive).spell place '\t' = ['\t'] := if_neg fun found => inside found.1
        refine ⟨count + 1, common, by rw [spelled, List.replicate_succ]; rfl, ?_⟩
        change List.replicate wide ' ' ++ _ = _
        rw [← List.append_assoc, ← List.replicate_add, Nat.succ_mul, Nat.add_comm]
      · have visible : isSpacing char = false := by
          have other : char ≠ ' ' := by
            rintro rfl
            cases begins
          rw [isSpacing, beq_false_of_ne other, beq_false_of_ne tab]
          rfl
        have next : place.next char = Place.margin.next char := by
          simp only [Place.next, visible, Bool.false_eq_true, if_false]
        have spelled (twin : Place) : (Style.spaces wide positive).spell twin char = [char] :=
          if_neg fun found => tab found.2
        rw [next] at rest
        exact ⟨0, char :: other, by rw [spelled]; rfl, by
          rw [spelled, Nat.zero_mul, rest.unique Iff.rfl more]; rfl⟩

/-- The same text is not written in two ways of which one ends in the other. -/
theorem eq_of_suffix (first : Respelled style place text one) (second : Respelled style twin text two)
    (suffix : one <:+ two) : one = two := by
  cases style with
  | breaks paired => exact first.unique_of_breaks second
  | spaces wide positive =>
    obtain ⟨before, whole⟩ := suffix
    by_cases margin : place = .margin
    · subst margin
      by_cases same : twin = .margin
      · exact first.unique (by rw [same]) second
      · obtain ⟨count, rest, rfl, rfl⟩ := second.tabs_of_spaces same first
        rw [← List.append_assoc] at whole
        have blanks := List.append_cancel_right whole
        cases count with
        | zero => rw [Nat.zero_mul]; rfl
        | succ count =>
          have member : ' ' ∈ List.replicate (count + 1) '\t' := by
            rw [← blanks]
            refine List.mem_append_right _ (List.mem_replicate.mpr ⟨?_, rfl⟩)
            exact Nat.ne_of_gt (Nat.mul_pos (Nat.succ_pos count) positive)
          cases List.eq_of_mem_replicate member
    · by_cases same : twin = .margin
      · subst same
        obtain ⟨count, rest, rfl, rfl⟩ := first.tabs_of_spaces margin second
        rw [← List.append_assoc] at whole
        have blanks := List.append_cancel_right whole
        cases count with
        | zero => rw [Nat.zero_mul]; rfl
        | succ count =>
          have member : '\t' ∈ List.replicate ((count + 1) * wide) ' ' := by
            rw [← blanks]
            exact List.mem_append_right _ List.mem_cons_self
          cases List.eq_of_mem_replicate member
      · exact first.unique (iff_of_false margin same) second

/-- Before what goes on the same in both texts there is what stands for what the first one has there. -/
theorem between (whole : Respelled style place (run ++ text) (copy ++ other))
    (rest : Respelled style twin text other) :
    Respelled style place run copy ∧ Respelled style (place.after run) text other := by
  obtain ⟨spelled, more, same, front, back⟩ := whole.split
  have ends : other = more := by
    have suffix : more <:+ copy ++ other := same ▸ List.suffix_append spelled more
    rcases List.suffix_or_suffix_of_suffix (List.suffix_append copy other) suffix with shorter | longer
    · exact rest.eq_of_suffix back shorter
    · exact (back.eq_of_suffix rest longer).symm
  subst ends
  rw [List.append_cancel_right same]
  exact ⟨front, back⟩

/-- What is taken of both texts is of one class. -/
theorem taken {class? : Char → Bool} (blind : Blind class?) (texts : Respelled style place text other) :
    Respelled style place (text.takeWhile class?) (other.takeWhile class?) := by
  induction texts with
  | nil place => exact .nil place
  | @cons place char text other fits rest step =>
    have alike {mark : Char} (member : mark ∈ style.spell place char) : class? mark = class? char :=
      blind.eq (style.look_of_mem_spell place member)
    cases member : class? char with
    | true =>
      rw [List.takeWhile_cons_of_pos member, List.takeWhile_append_of_pos fun mark inside =>
        (alike inside).trans member]
      exact .cons fits step
    | false =>
      obtain ⟨first, more, spelled, -⟩ := style.spell_cons place char
      have outside : ¬ class? first = true := by
        rw [alike (by rw [spelled]; exact List.mem_cons_self), member]
        decide
      rw [List.takeWhile_cons_of_neg (by rw [member]; decide), spelled, List.cons_append,
        List.takeWhile_cons_of_neg outside]
      exact .nil place

/-- No line ends in what stands for a line. -/
theorem flat_of_flat (texts : Respelled style place text other) (flat : ∀ char ∈ text, isLineEnd char = false) :
    ∀ char ∈ other, isLineEnd char = false := by
  induction texts with
  | nil => exact flat
  | @cons place char text other fits rest step =>
    obtain ⟨first, further⟩ := List.forall_mem_cons.mp flat
    refine List.forall_mem_append.mpr ⟨fun mark member => ?_, step further⟩
    exact (Blind.eq ⟨rfl, rfl⟩ (style.look_of_mem_spell place member)).trans first

end Respelled

/-- Between two places side by side. -/
theorem Respelled.textTo {first second stop final : Input} (texts : Respelled style place first.rest second.rest)
    (reached : first.Reaches stop) (arrived : second.Reaches final) (beside : Beside style.spelling stop final) :
    Respelled style place (first.textTo stop.pos) (second.textTo final.pos) := by
  obtain ⟨read, rest, -⟩ := id reached
  obtain ⟨copy, others, -⟩ := id arrived
  obtain ⟨twin, further⟩ := beside
  rw [Input.textTo_of_reaches rest reached, Input.textTo_of_reaches others arrived]
  rw [rest, others] at texts
  exact (texts.between further).1

/-! The last line of a text. -/

theorem Closed.after (closed : Closed text) : Place.margin.after text = .margin := by
  cases closed with
  | nil => rfl
  | line front ends =>
    rw [Place.after, List.foldl_append]
    exact Place.next_of_isLineEnd ends _

theorem Closed.spelled (closed : Closed text) (texts : Respelled style place text other) : Closed other := by
  cases closed with
  | nil =>
    cases texts
    exact .nil
  | @line front char ends =>
    obtain ⟨spelled, more, rfl, -, back⟩ := texts.split
    cases back with
    | @cons _ _ _ rest _ none =>
      generalize place.after front = twin at *
      cases none
      rw [List.append_nil]
      obtain ⟨first, others, shown, -⟩ := style.spell_cons twin char
      obtain ⟨front, last, whole⟩ := List.eq_nil_or_concat' (style.spell twin char) |>.resolve_left fun none =>
        List.cons_ne_nil _ _ (shown.symm.trans none)
      rw [whole, ← List.append_assoc]
      refine .line _ ?_
      have member : last ∈ style.spell twin char := by
        rw [whole]
        exact List.mem_append_right _ List.mem_cons_self
      exact (Blind.eq ⟨rfl, rfl⟩ (style.look_of_mem_spell twin member)).trans ends

/-- The last lines of both texts are at the start of a line. -/
theorem Respelled.lastLine (texts : Respelled style .margin text other) :
    Respelled style .margin (lastLine text) (Respelling.lastLine other) := by
  obtain ⟨before, whole, closed, flat⟩ := lastLine_split text
  have parts := texts
  rw [whole] at parts
  obtain ⟨spelled, more, rfl, front, back⟩ := parts.split
  rw [closed.after] at back
  rwa [lastLine_of_closed (closed.spelled front) (back.flat_of_flat flat)]

/-! What stands before the lines that continue an expression. -/

variable {first second : Input}

/-- What lines start with that continue an expression, after the line terminator before them. -/
theorem continued_of_respelled {char : Char} {text continued : List Char} (ends : isLineEnd char = true)
    (plain : Plain (char :: text)) (spelled : Respelled style .margin (char :: text) continued) :
    Continued style.spelling (char :: text) continued := by
  refine ⟨spelled.nil_iff, plain, False.elim, fun {first second} beside => ?_⟩
  obtain ⟨place, texts⟩ := beside
  obtain ⟨same, goesOn⟩ := spelled.starts texts (.inr fun mark found => by cases found; exact ends)
  unfold Input.eatWord? Input.startsWith
  by_cases starts : char :: text <+: first.rest
  · rw [if_pos (List.isPrefixOf_iff_prefix.mpr starts), if_pos (List.isPrefixOf_iff_prefix.mpr (same.mpr starts))]
    have further := goesOn starts
    rw [← Reading.rest_advanceBy, ← Reading.rest_advanceBy] at further
    exact .some ⟨_, further⟩
  · rw [if_neg fun here => starts (List.isPrefixOf_iff_prefix.mp here),
      if_neg fun here => starts (same.mp (List.isPrefixOf_iff_prefix.mp here))]
    exact .none

/-! Line terminators at the ends of texts. -/

variable {front : List Char} {wide : Nat} {positive : 0 < wide}

/-- With spaces for tabs, a carriage return at the end stands in both texts. -/
theorem Respelled.carriage_of_spaces {more : List Char}
    (texts : Respelled (.spaces wide positive) place front (more ++ ['\r'])) :
    ∃ before, front = before ++ ['\r'] := by
  rcases List.eq_nil_or_concat' front with rfl | ⟨before, char, rfl⟩
  · exact absurd (texts.nil_iff.mpr rfl) (List.append_ne_nil_of_right_ne_nil _ (List.cons_ne_nil _ _))
  · obtain ⟨spelled, last, whole, -, final⟩ := texts.split
    cases final with
    | cons fits none =>
      cases none
      have member : '\r' ∈ (Style.spaces wide positive).spell (place.after before) char := by
        have ends := congrArg List.getLast? whole
        rw [List.getLast?_concat, List.append_nil, List.getLast?_append_of_ne_nil] at ends
        · exact List.mem_of_getLast? ends.symm
        · obtain ⟨first, others, shown, -⟩ := (Style.spaces wide positive).spell_cons (place.after before) char
          rw [shown]
          exact List.cons_ne_nil _ _
      rw [Style.spell] at member
      split at member
      · cases List.eq_of_mem_replicate member
      · exact ⟨before, by rw [List.mem_singleton.mp member]⟩

/-- Nothing is written anew that has carriage returns already. -/
theorem Respelled.not_mem_of_breaks {paired : Bool} (texts : Respelled (.breaks paired) place text other) :
    '\r' ∉ text := by
  induction texts with
  | nil => exact List.not_mem_nil
  | cons fits _ step =>
    refine List.not_mem_cons_of_ne_of_not_mem (fun same => ?_) step
    subst same
    cases fits

/-- Both texts end in line terminators that correspond. -/
theorem lastLineBreak_respelled (texts : Respelled style place text other) (ends : Ends text) :
    Respelled style .margin (lastLineBreak text) (lastLineBreak other) := by
  obtain ⟨front, char, rfl, ends⟩ := ends
  obtain ⟨spelled, more, rfl, before, last⟩ := texts.split
  cases last with
  | @cons _ _ _ _ fits none =>
    generalize place.after front = twin at *
    cases none
    rw [List.append_nil]
    cases style with
    | spaces wide positive =>
      rw [Style.spell_spaces ends]
      rcases Bool.or_eq_true_iff.mp ends with newline | carriage
      · rw [beq_iff_eq.mp newline]
        by_cases paired : ∃ more, front = more ++ ['\r']
        · obtain ⟨more, rfl⟩ := paired
          obtain ⟨spelled, carriage, rfl, -, single⟩ := before.split
          cases single with
          | cons _ none =>
            cases none
            rw [Style.spell_spaces rfl, List.append_nil, lastLineBreak_paired, lastLineBreak_paired]
            exact .cons rfl (.cons rfl (.nil _))
        · rw [lastLineBreak_newline fun more same => paired ⟨more, same⟩, lastLineBreak_newline]
          · exact .cons rfl (.nil _)
          · rintro more rfl
            exact paired before.carriage_of_spaces
      · rw [beq_iff_eq.mp carriage, lastLineBreak_carriage, lastLineBreak_carriage]
        exact .cons rfl (.nil _)
    | breaks paired =>
      have newline : char = '\n' := by
        refine beq_iff_eq.mp ((Bool.or_eq_true_iff.mp ends).resolve_right fun carriage => ?_)
        rw [beq_iff_eq.mp carriage] at fits
        cases fits
      subst newline
      have apart : ∀ more, front ≠ more ++ ['\r'] := by
        rintro more rfl
        exact before.not_mem_of_breaks (List.mem_append_right _ List.mem_cons_self)
      rw [lastLineBreak_newline apart]
      cases paired with
      | true =>
        have both : spelled ++ (Style.breaks true).spell twin '\n' = spelled ++ ['\r'] ++ ['\n'] :=
          List.append_cons ..
        rw [both, lastLineBreak_paired]
        exact .cons rfl (.nil _)
      | false =>
        have single : (Style.breaks false).spell twin '\n' = ['\r'] := rfl
        rw [single, lastLineBreak_carriage]
        exact .cons rfl (.nil _)

/-! Blocks. -/

variable {indent spelled : List Char}

/-- After the ends of lines comes the start of a line. -/
theorem Place.after_lineEnds (ends : ∀ char ∈ text, isLineEnd char = true) : Place.margin.after text = .margin := by
  induction text with
  | nil => rfl
  | cons char text step =>
    obtain ⟨first, rest⟩ := List.forall_mem_cons.mp ends
    rw [Place.after, List.foldl_cons, Place.next_of_isLineEnd first]
    exact step rest

/-- What the lines of a block start with. -/
theorem continued_of_block (breaks : Respelled style place text other) (ends : Ends text)
    (plain : Plain indent) (block : Respelled style .margin indent spelled) :
    Continued style.spelling (lastLineBreak text ++ indent) (lastLineBreak other ++ spelled) := by
  have terminators := lastLineBreak_respelled breaks ends
  obtain ⟨char, rest, same, marks⟩ := lastLineBreak_cases text
  have unquoted : Plain (char :: rest) := plain_of_blanks fun mark member => by
    rw [isWhitespace, marks mark member, Bool.or_true]
  rw [same] at terminators ⊢
  rw [← Place.after_lineEnds marks] at block
  exact continued_of_respelled (List.forall_mem_cons.mp marks).1 (unquoted.append plain) (terminators.append block)

/-- Lines begin at the same places in both texts. -/
def Style.margins (style : Style) : Margins style.spelling where
  starting := Respelled style .margin
  beside := fun texts => ⟨.margin, texts⟩
  after := fun ⟨_, texts⟩ => texts.afterBreak
  taken := fun texts => texts.taken ⟨rfl, rfl⟩
  begins := fun words texts => by
    obtain ⟨same, goesOn⟩ := words.starts texts (.inl rfl)
    exact ⟨same, fun starts => ⟨_, goesOn starts⟩⟩
  continued := fun ⟨_, texts⟩ reached arrived starting ends plain block => by
    have breaks := texts.textTo reached arrived ⟨.margin, starting⟩
    exact continued_of_block breaks ends plain block

end HtmlTemplate.Respelling
