import HtmlTemplate.Proofs.Respelling.Spellings

/-! Two texts of which the second has other blanks: spaces where the first has tabs at the starts of its
lines, or other line terminators. Both look alike to whoever takes a tab for a space and a carriage return
for a newline, and does not stop among them. -/

namespace HtmlTemplate.Respelling

open CharClass

/-- What the second text has other blanks for. -/
inductive Style where
  /-- Some spaces for each tab at the start of a line. -/
  | spaces (wide : Nat) (positive : 0 < wide)
  /-- A carriage return for each newline, perhaps with the newline after it. -/
  | breaks (paired : Bool)

/-- Where a character stands on its line. -/
inductive Place where
  /-- Nothing but spacing is before it. -/
  | margin
  | within
  /-- A backslash is before it. -/
  | escaped
  deriving DecidableEq

namespace Place

def next (place : Place) (char : Char) : Place :=
  if isLineEnd char then margin
  else if isSpacing char then if place = margin then margin else within
  else if char = '\\' then escaped
  else within

/-- The place after some text. -/
def after (place : Place) (text : List Char) : Place := text.foldl next place

theorem next_of_isLineEnd {char : Char} (ends : isLineEnd char = true) (place : Place) :
    place.next char = margin := if_pos ends

theorem next_ne_margin {place : Place} {char : Char} (within : isLineEnd char = false)
    (inside : isSpacing char = true → place ≠ margin) : place.next char ≠ margin := by
  unfold next
  rw [within, if_neg Bool.false_ne_true]
  split
  · rename_i spacing
    rw [if_neg (inside spacing)]
    decide
  · split <;> decide

end Place

namespace Style

/-- The characters that the first text may have. -/
def fits : Style → Place → Char → Bool
  | spaces _ _, place, char => place != .margin || char != ' '
  | breaks _, place, char => char != '\r' && (place != .escaped || char != '\n')

/-- What the second text has for a character of the first one. -/
def spell : Style → Place → Char → List Char
  | spaces wide _, place, char =>
    if place = .margin ∧ char = '\t' then List.replicate wide ' ' else [char]
  | breaks paired, _, char => if char = '\n' then '\r' :: (if paired then ['\n'] else []) else [char]

end Style

/-- The second text is the first one with other blanks. -/
inductive Respelled (style : Style) : Place → List Char → List Char → Prop where
  | nil (place : Place) : Respelled style place [] []
  | cons {place : Place} {char : Char} {text other : List Char} (fits : style.fits place char = true)
      (rest : Respelled style (place.next char) text other) :
      Respelled style place (char :: text) (style.spell place char ++ other)
variable {class? : Char → Bool} {char : Char}

theorem Place.next_ne_margin_of_visible (visible : isWhitespace char = false) (place : Place) :
    place.next char ≠ margin :=
  next_ne_margin (isLineEnd_of_visible visible) fun spacing =>
    absurd ((isSpacing_of_visible visible).symm.trans spacing) Bool.false_ne_true

/-! What stands for a character. -/

namespace Style

variable (style : Style) (place : Place)

theorem spell_of_visible (visible : isWhitespace char = false) : style.spell place char = [char] := by
  have other (blank : Char) (white : isWhitespace blank = true) : char ≠ blank := by
    rintro rfl
    exact Bool.false_ne_true (visible.symm.trans white)
  cases style with
  | spaces wide positive => exact if_neg fun found => other '\t' rfl found.2
  | breaks paired => exact if_neg (other '\n' rfl)

variable {style place}

/-- On the rest of a line every character stands in both texts. -/
theorem spell_within (inside : place ≠ .margin) (within : isLineEnd char = false) :
    style.spell place char = [char] := by
  cases style with
  | spaces wide positive => exact if_neg fun found => inside found.1
  | breaks paired =>
    refine if_neg ?_
    rintro rfl
    cases within

variable (style place)

/-- What stands for a character begins with one that looks like it, and goes on with others. -/
theorem spell_cons (char : Char) : ∃ first more, style.spell place char = first :: more ∧
    look first = look char ∧ ∀ other ∈ more, look other = look char := by
  have same : ∃ first more, [char] = first :: more ∧ look first = look char ∧
      ∀ other ∈ more, look other = look char := ⟨char, [], rfl, rfl, nofun⟩
  cases style with
  | spaces wide positive =>
    rw [spell]
    split
    · rename_i found
      obtain ⟨count, rfl⟩ := Nat.exists_eq_succ_of_ne_zero (Nat.ne_of_gt positive)
      rw [found.2]
      exact ⟨' ', List.replicate count ' ', rfl, rfl, fun other member => by
        rw [List.eq_of_mem_replicate member]; rfl⟩
    · exact same
  | breaks paired =>
    rw [spell]
    split
    · rename_i newline
      rw [newline]
      refine ⟨'\r', _, rfl, rfl, ?_⟩
      cases paired with
      | true => exact List.forall_mem_singleton.mpr rfl
      | false => nofun
    · exact same

theorem look_of_mem_spell {other : Char} (member : other ∈ style.spell place char) :
    look other = look char := by
  obtain ⟨first, more, spelled, alike, others⟩ := style.spell_cons place char
  rw [spelled] at member
  rcases List.mem_cons.mp member with rfl | member
  · exact alike
  · exact others other member

variable {style place}

/-- No two characters begin alike in the second text. -/
theorem eq_of_spell {twin : Place} {other first : Char} {more rest : List Char}
    (fits : style.fits place char = true) (other_fits : style.fits twin other = true)
    (same : place = twin ∨ isLineEnd char = true) (spelled : style.spell place char = first :: more)
    (other_spelled : style.spell twin other = first :: rest) : char = other := by
  cases style with
  | spaces wide positive =>
    have blank {place : Place} {char : Char} {more : List Char}
        (spelled : (spaces wide positive).spell place char = first :: more) :
        place = .margin ∧ char = '\t' ∧ first = ' ' ∨ ¬ (place = .margin ∧ char = '\t') ∧ char = first := by
      rw [spell] at spelled
      split at spelled
      · rename_i found
        have member : first ∈ List.replicate wide ' ' := spelled ▸ List.mem_cons_self
        exact .inl ⟨found.1, found.2, List.eq_of_mem_replicate member⟩
      · rename_i none
        exact .inr ⟨none, (List.cons.inj spelled).1⟩
    rcases blank spelled with ⟨margin, tab, space⟩ | ⟨none, here⟩ <;>
      rcases blank other_spelled with ⟨edge, other_tab, other_space⟩ | ⟨other_none, there⟩
    · rw [tab, other_tab]
    · have meet : place = twin := same.resolve_right (by rw [tab]; decide)
      rw [← meet, margin, there, space] at other_fits
      cases other_fits
    · rcases same with meet | ends
      · rw [meet, edge, here, other_space] at fits
        cases fits
      · rw [here, other_space] at ends
        cases ends
    · rw [here, there]
  | breaks paired =>
    have blank {place : Place} {char : Char} {more : List Char}
        (fits : (breaks paired).fits place char = true)
        (spelled : (breaks paired).spell place char = first :: more) :
        char = '\n' ∧ first = '\r' ∨ char = first ∧ char ≠ '\r' := by
      rw [spell] at spelled
      split at spelled
      · rename_i newline
        exact .inl ⟨newline, (List.cons.inj spelled).1.symm⟩
      · rename_i none
        exact .inr ⟨(List.cons.inj spelled).1, bne_iff_ne.mp (Bool.and_eq_true_iff.mp fits).1⟩
    rcases blank fits spelled with ⟨newline, carriage⟩ | ⟨here, none⟩ <;>
      rcases blank other_fits other_spelled with ⟨other_newline, other_carriage⟩ | ⟨there, other_none⟩
    · rw [newline, other_newline]
    · exact absurd (there.trans carriage) other_none
    · exact absurd (here.trans other_carriage) none
    · rw [here, there]

/-- With spaces for tabs, a line end stands in both texts. -/
theorem spell_spaces {wide : Nat} {positive : 0 < wide} (ends : isLineEnd char = true) :
    (spaces wide positive).spell place char = [char] := by
  refine if_neg ?_
  rintro ⟨-, rfl⟩
  cases ends

theorem spell_lineEnd (ends : isLineEnd char = true) (twin : Place) :
    style.spell place char = style.spell twin char := by
  cases style with
  | spaces wide positive => rw [spell_spaces ends, spell_spaces ends]
  | breaks paired => rfl

end Style

variable {style : Style} {place : Place} {text other run : List Char} {first second : Input}

namespace Respelled

theorem nil_iff (texts : Respelled style place text other) : other = [] ↔ text = [] := by
  cases texts with
  | nil => exact iff_of_true rfl rfl
  | @cons place char =>
    obtain ⟨first, more, spelled, -⟩ := style.spell_cons place char
    rw [spelled]
    exact iff_of_false (List.cons_ne_nil _ _) (List.cons_ne_nil _ _)

/-- Both texts begin alike. -/
theorem head (texts : Respelled style place (char :: text) other) :
    ∃ first more, other = first :: more ∧ look first = look char := by
  cases texts with
  | cons fits rest =>
    obtain ⟨first, more, spelled, alike, -⟩ := style.spell_cons place char
    rw [spelled]
    exact ⟨first, _, rfl, alike⟩

/-- A character that is no blank stands in both texts. -/
theorem uncons (visible : isWhitespace char = false) (texts : Respelled style place (char :: text) other) :
    ∃ rest, other = char :: rest ∧ Respelled style (place.next char) text rest := by
  cases texts with
  | cons fits rest =>
    rw [style.spell_of_visible place visible]
    exact ⟨_, rfl, rest⟩

/-- On the rest of a line every character stands in both texts. -/
theorem uncons_within (inside : place ≠ .margin) (within : isLineEnd char = false)
    (texts : Respelled style place (char :: text) other) :
    ∃ rest, other = char :: rest ∧ Respelled style (place.next char) text rest := by
  cases texts with
  | cons fits rest =>
    rw [Style.spell_within inside within]
    exact ⟨_, rfl, rest⟩

/-- No blank after a backslash is another one in the second text. -/
theorem uncons_escaped (texts : Respelled style .escaped (char :: text) other) :
    ∃ rest, other = char :: rest ∧ Respelled style (Place.escaped.next char) text rest := by
  cases texts with
  | cons fits rest =>
    have same : style.spell .escaped char = [char] := by
      cases style with
      | spaces wide positive => rfl
      | breaks paired =>
        refine if_neg ?_
        rintro rfl
        cases fits
    rw [same]
    exact ⟨_, rfl, rest⟩

/-- The parts of a text are written anew one after the other. -/
theorem split (texts : Respelled style place (run ++ text) other) : ∃ spelled more,
    other = spelled ++ more ∧ Respelled style place run spelled ∧
      Respelled style (place.after run) text more := by
  induction run generalizing place other with
  | nil => exact ⟨[], other, rfl, .nil place, texts⟩
  | cons char run step =>
    rw [List.cons_append] at texts
    cases texts with
    | cons fits rest =>
      obtain ⟨spelled, more, rfl, front, back⟩ := step rest
      exact ⟨style.spell place char ++ spelled, more, (List.append_assoc ..).symm, .cons fits front, back⟩

theorem append {spelled more : List Char} (front : Respelled style place run spelled)
    (back : Respelled style (place.after run) text more) :
    Respelled style place (run ++ text) (spelled ++ more) := by
  induction front with
  | nil => exact back
  | cons fits _ step =>
    rw [List.cons_append, List.append_assoc]
    exact .cons fits (step back)

/-- The second text begins with what stands for a word just where the first one begins with the word. -/
theorem starts {word spelled : List Char} {twin : Place} (words : Respelled style twin word spelled)
    (texts : Respelled style place text other)
    (meet : place = twin ∨ ∀ char ∈ word.head?, isLineEnd char = true) :
    (spelled <+: other ↔ word <+: text) ∧ (word <+: text →
      Respelled style (place.after word) (text.drop word.length) (other.drop spelled.length)) := by
  induction words generalizing place text other with
  | nil => exact ⟨iff_of_true List.nil_prefix List.nil_prefix, fun _ => texts⟩
  | @cons twin mark word spelled fits _ step =>
    obtain ⟨first, more, written, -⟩ := style.spell_cons twin mark
    cases texts with
    | nil =>
      have none {char : Char} {word : List Char} : ¬ char :: word <+: [] :=
        fun starts => List.cons_ne_nil _ _ (List.prefix_nil.mp starts)
      rw [written]
      exact ⟨iff_of_false none none, (absurd · none)⟩
    | @cons _ char text other here rest =>
      have meet : place = twin ∨ isLineEnd mark = true := meet.imp_right fun ends => ends mark rfl
      by_cases same : char = mark
      · subst same
        have spells : style.spell place char = style.spell twin char :=
          meet.elim (fun same => by rw [same]) fun ends => Style.spell_lineEnd ends twin
        have next : place.next char = twin.next char :=
          meet.elim (fun same => by rw [same]) fun ends =>
            (Place.next_of_isLineEnd ends place).trans (Place.next_of_isLineEnd ends twin).symm
        obtain ⟨alike, goesOn⟩ := step rest (.inl next)
        rw [spells, List.prefix_append_right_inj, List.cons_prefix_cons, and_iff_right rfl]
        refine ⟨alike, fun starts => ?_⟩
        rw [List.length_cons, List.drop_succ_cons, List.length_append, ← List.drop_drop, List.drop_left]
        exact goesOn starts
      · have none : ¬ mark :: word <+: char :: text := fun starts =>
          same (List.cons_prefix_cons.mp starts).1.symm
        obtain ⟨front, rest, shown, -⟩ := style.spell_cons place char
        refine ⟨iff_of_false (fun starts => ?_) none, (absurd · none)⟩
        rw [written, shown, List.cons_append, List.cons_append] at starts
        have begins : first = front := (List.cons_prefix_cons.mp starts).1
        exact same (Style.eq_of_spell fits here (meet.imp_left Eq.symm) written (begins ▸ shown)).symm

end Respelled

/-! Line terminators. -/

namespace Respelled

variable {wide : Nat} {positive : 0 < wide} {more : List Char}

/-- With spaces for tabs, a newline stands in both texts. -/
theorem newline_of_spaces (texts : Respelled (.spaces wide positive) place text ('\n' :: more)) :
    ∃ rest, text = '\n' :: rest := by
  generalize written : '\n' :: more = other at texts
  cases texts with
  | nil => cases written
  | @cons _ mark text other fits rest =>
    obtain ⟨first, others, shown, -⟩ := (Style.spaces wide positive).spell_cons place mark
    rw [shown, List.cons_append] at written
    rw [← (List.cons.inj written).1] at shown
    have newline : (Style.spaces wide positive).spell place '\n' = ['\n'] := if_neg fun found => by cases found.2
    have fitting : (Style.spaces wide positive).fits place '\n' = true := Bool.or_true _
    exact ⟨text, by rw [Style.eq_of_spell fitting fits (.inr rfl) newline shown]⟩

/-- With carriage returns for newlines, no newline is left. -/
theorem not_newline_of_breaks : ¬ Respelled (.breaks false) place text ('\n' :: more) := by
  intro texts
  generalize written : '\n' :: more = other at texts
  cases texts with
  | nil => cases written
  | @cons _ mark =>
    change _ = (if mark = '\n' then ['\r'] else [mark]) ++ _ at written
    split at written
    · cases written
    · rename_i other
      exact other (List.cons.inj written).1.symm

/-- After a line terminator both texts are at the start of a line. -/
theorem afterBreak (texts : Respelled style place text other) :
    Option.Rel (Respelled style .margin) (afterBreak? text) (afterBreak? other) := by
  have spelled := texts
  cases texts with
  | nil => exact .none
  | @cons _ char text other fits rest =>
    cases ends : isLineEnd char with
    | false =>
      obtain ⟨first, more, same, alike⟩ := spelled.head
      rw [same, afterBreak?_none ends, afterBreak?_none ((Blind.eq ⟨rfl, rfl⟩ alike).trans ends)]
      exact .none
    | true =>
      rw [Place.next_of_isLineEnd ends] at rest
      cases style with
      | spaces wide positive =>
        rw [Style.spell_spaces ends, List.singleton_append]
        rcases Bool.or_eq_true_iff.mp ends with newline | carriage
        · rw [beq_iff_eq.mp newline]
          exact .some rest
        · rw [beq_iff_eq.mp carriage]
          by_cases newline : ∃ more, text = '\n' :: more
          · obtain ⟨more, rfl⟩ := newline
            cases rest with
            | cons _ rest =>
              rw [Style.spell_spaces rfl]
              exact .some rest
          · have apart : ∀ more, other ≠ '\n' :: more := by
              rintro more rfl
              exact newline rest.newline_of_spaces
            rw [afterBreak?_carriage apart, afterBreak?_carriage fun more same => newline ⟨more, same⟩]
            exact .some rest
      | breaks paired =>
        have newline : char = '\n' := by
          refine beq_iff_eq.mp ((Bool.or_eq_true_iff.mp ends).resolve_right fun carriage => ?_)
          rw [beq_iff_eq.mp carriage] at fits
          cases fits
        subst newline
        cases paired with
        | true => exact .some rest
        | false =>
          have apart : ∀ more, other ≠ '\n' :: more := by
            rintro more rfl
            exact not_newline_of_breaks rest
          change Option.Rel _ (some text) (afterBreak? ('\r' :: other))
          rw [afterBreak?_carriage apart]
          exact .some rest

end Respelled

/-! What readers see of the two texts. -/

/-- Whether a template is the same but for its tabs. -/
def Style.shows : Style → Bool
  | spaces _ _ => false
  | breaks _ => true

/-- What stands for a blank within a line is put out like it. -/
theorem Style.spell_alike (style : Style) (place : Place) (within : isLineEnd char = false) :
    Alike style.shows [char] (style.spell place char) := by
  obtain ⟨first, more, spelled, -⟩ := style.spell_cons place char
  have other : style.spell place char ≠ [] := by
    rw [spelled]
    exact List.cons_ne_nil _ _
  refine ⟨List.cons_ne_nil _ _, other, ?_⟩
  cases style with
  | spaces wide positive => exact iff_of_false (ofList_ne_empty (List.cons_ne_nil _ _)) (ofList_ne_empty other)
  | breaks paired =>
    refine congrArg String.ofList (if_neg ?_)
    rintro rfl
    cases within

/-- Other blanks as a way to write texts anew. -/
def Style.spelling (style : Style) : Spelling where
  shows := style.shows
  keeps := False
  beside text other := ∃ place, Respelled style place text other
  inside text other := ∃ place, place ≠ .margin ∧ Respelled style place text other
  weaken := fun ⟨place, _, texts⟩ => ⟨place, texts⟩
  heads := fun {text _} ⟨_, texts⟩ => by
    cases text with
    | nil =>
      cases texts
      exact .nil
    | cons char text =>
      obtain ⟨first, more, rfl, alike⟩ := texts.head
      exact .cons alike
  shown := False.elim
  same := False.elim
  visible := fun visible ⟨place, texts⟩ => by
    obtain ⟨rest, same, further⟩ := texts.uncons visible
    exact ⟨rest, same, _, Place.next_ne_margin_of_visible visible place, further⟩
  within := fun within ⟨place, begun, texts⟩ => by
    obtain ⟨rest, same, further⟩ := texts.uncons_within begun within
    exact ⟨rest, same, _, Place.next_ne_margin within fun _ => begun, further⟩
  escaped := fun ⟨place, texts⟩ => by
    obtain ⟨more, rfl, further⟩ := texts.uncons rfl
    obtain ⟨rest, rfl, beyond⟩ := further.uncons_escaped
    exact ⟨rest, rfl, ⟨_, beyond⟩, fun within => ⟨_, @Place.next_ne_margin .escaped _ within nofun, beyond⟩⟩
  spacing := fun {char _ _} spacing ⟨place, texts⟩ => by
    cases texts with
    | cons _ rest =>
      refine ⟨_, _, rfl, fun copy member => ?_, style.spell_alike place (isLineEnd_of_isSpacing spacing), _, rest⟩
      exact (Blind.eq ⟨rfl, rfl⟩ (style.look_of_mem_spell place member)).trans spacing
  lineEnd := fun {char _ _} ends ⟨place, texts⟩ => by
    cases texts with
    | cons _ rest =>
      refine ⟨[], _, _, _, rfl, rfl, List.forall_mem_nil _, fun copy member => ?_, _, rest⟩
      have alike : isLineEnd copy = isLineEnd char := Blind.eq ⟨rfl, rfl⟩ (style.look_of_mem_spell place member)
      rw [isWhitespace, alike, ends, Bool.or_true]

end HtmlTemplate.Respelling
