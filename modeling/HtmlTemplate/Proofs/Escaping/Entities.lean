import HtmlTemplate.Template.Compilation

/-! Escaping can be undone and does no more than it has to: what is written has no special character but in
entities, decoding gives the text back, and only special characters are written anew. -/

namespace HtmlTemplate.Entities

/-- The entities of the special characters. -/
def all : List (List Char) :=
  ["&amp;".toList, "&lt;".toList, "&gt;".toList, "&quot;".toList, "&#39;".toList]

theorem isSpecial_iff {char : Char} : isSpecial char = true ↔ char ∈ ['&', '<', '>', '"', '\''] := by
  simp [isSpecial, or_assoc]

/-- A character is written as an entity or, if it is not special, as it is. -/
theorem escapeChar_cases (char : Char) :
    (isSpecial char = true ∧ escapeChar char ∈ all) ∨ (isSpecial char = false ∧ escapeChar char = [char]) := by
  cases special : isSpecial char with
  | false => exact .inr ⟨rfl, escapeChar_plain special⟩
  | true =>
    refine .inl ⟨rfl, ?_⟩
    have member := isSpecial_iff.mp special
    simp only [List.mem_cons, List.not_mem_nil, or_false] at member
    rcases member with rfl | rfl | rfl | rfl | rfl <;> decide

/-! What is in a written text. -/

/-- A special character of a written text is the ampersand of an entity. -/
theorem special_written {written : List Char} (one : written ∈ all) :
    ∀ char ∈ written, isSpecial char = true → char = '&' := by
  simp only [all, List.mem_cons, List.not_mem_nil, or_false] at one
  rcases one with rfl | rfl | rfl | rfl | rfl <;> simp [isSpecial]

theorem mem_escapeChars {text : List Char} {char : Char} (member : char ∈ escapeChars text) :
    isSpecial char = true → char = '&' := by
  obtain ⟨written, -, inside⟩ := List.mem_flatMap.mp member
  intro special
  rcases escapeChar_cases written with ⟨-, entity⟩ | ⟨plain, same⟩
  · exact special_written entity char inside special
  · rw [same, List.mem_singleton] at inside
    rw [inside, plain] at special
    cases special

/-- Every ampersand of a text begins an entity. -/
def Marked (text : List Char) : Prop :=
  ∀ before after, text = before ++ '&' :: after → ∃ entity ∈ all, entity <+: '&' :: after

theorem Marked.append {first second : List Char} (marked : Marked first) (also : Marked second) :
    Marked (first ++ second) := by
  intro before after split
  rcases List.append_eq_append_iff.mp split with ⟨between, -, rest⟩ | ⟨between, whole, rest⟩
  · exact also between after rest
  · cases between with
    | nil => exact also [] after rest.symm
    | cons char between =>
      obtain ⟨rfl, rfl⟩ := List.cons.inj rest
      obtain ⟨entity, member, starts⟩ := marked before between whole
      exact ⟨entity, member, starts.trans (List.prefix_append _ _)⟩

/-- An entity has one ampersand, its first character. -/
theorem marked_entity {entity : List Char} (member : entity ∈ all) : Marked entity := by
  have tails : ∀ entity ∈ all, entity.head? = some '&' ∧ '&' ∉ entity.tail := by decide
  obtain ⟨begins, once⟩ := tails entity member
  obtain ⟨rest, rfl⟩ := List.head?_eq_some_iff.mp begins
  intro before after split
  cases before with
  | nil => exact ⟨_, member, split ▸ List.prefix_refl _⟩
  | cons char before =>
    obtain ⟨-, rfl⟩ := List.cons.inj split
    exact (once (List.mem_append_right _ List.mem_cons_self)).elim

theorem marked_escapeChars (text : List Char) : Marked (escapeChars text) := by
  induction text with
  | nil =>
    intro before after split
    simp [escapeChars] at split
  | cons char rest step =>
    suffices Marked (escapeChar char) from this.append step
    rcases escapeChar_cases char with ⟨-, entity⟩ | ⟨plain, same⟩
    · exact marked_entity entity
    · rw [same]
      intro before after split
      have member : '&' ∈ [char] := split ▸ List.mem_append_right _ List.mem_cons_self
      rw [← List.mem_singleton.mp member] at plain
      cases plain

/-! Reading back. -/

theorem decodeChars_cons {char : Char} (plain : char ≠ '&') (text : List Char) :
    decodeChars (char :: text) = char :: decodeChars text := by
  rw [decodeChars.eq_def]
  split <;> simp_all

/-- A character is read back from what is written for it, whatever follows. -/
theorem decodeChars_escapeChar (char : Char) (text : List Char) :
    decodeChars (escapeChar char ++ text) = char :: decodeChars text := by
  cases special : isSpecial char with
  | false =>
    rw [escapeChar_plain special]
    refine decodeChars_cons ?_ text
    rintro rfl
    cases special
  | true =>
    have member := isSpecial_iff.mp special
    simp only [List.mem_cons, List.not_mem_nil, or_false] at member
    rcases member with rfl | rfl | rfl | rfl | rfl <;> rfl

theorem decodeChars_escapeChars (text : List Char) : decodeChars (escapeChars text) = text := by
  induction text with
  | nil => rfl
  | cons char rest step =>
    rw [escapeChars, List.flatMap_cons, decodeChars_escapeChar]
    exact congrArg (char :: ·) step

/-! Whole texts. -/

theorem escape_append (first second : String) : escape (first ++ second) = escape first ++ escape second := by
  apply String.toList_inj.mp
  simp only [toList_escape, String.toList_append, escapeChars_append]

/-- Pieces that are written one by one are the whole as it is written. -/
theorem escape_join (pieces : List String) : escape (String.join pieces) = String.join (pieces.map escape) := by
  induction pieces with
  | nil => rfl
  | cons first rest step => rw [String.join_cons, List.map_cons, String.join_cons, escape_append, step]

/-- Every special character makes a written text longer. -/
theorem length_escapeChars_ge (text : List Char) :
    text.length + text.countP isSpecial ≤ (escapeChars text).length := by
  have longer : ∀ entity ∈ all, 2 ≤ entity.length := by decide
  induction text with
  | nil => exact Nat.le_refl _
  | cons char rest step =>
    have split : (escapeChars (char :: rest)).length = (escapeChar char).length + (escapeChars rest).length := by
      simp [escapeChars]
    rcases escapeChar_cases char with ⟨special, entity⟩ | ⟨plain, same⟩
    · have written := longer _ entity
      simp only [split, List.length_cons, List.countP_cons, special, if_true]
      omega
    · simp only [split, same, List.length_cons, List.length_nil, List.countP_cons, plain]
      simp only [Bool.false_eq_true, if_false]
      omega

theorem escape_eq_self_iff (text : String) : escape text = text ↔ ∀ char ∈ text.toList, isSpecial char = false := by
  constructor
  · intro same
    have longer := length_escapeChars_ge text.toList
    rw [← toList_escape, same] at longer
    have none : text.toList.countP isSpecial = 0 := by omega
    simpa using List.countP_eq_zero.mp none
  · intro plain
    have none : text.toList.any isSpecial = false := by simpa using plain
    simp [escape, none]

/-- A known output becomes text just if escaping has nothing to do in it; else it is kept for the run, which
knows whether outputs are escaped. -/
theorem outputItem_known {fold : Expr → Option Value} {expr : Expr} {value : Value}
    (known : fold expr = some value) :
    Compilation.outputItem fold true expr =
      if value.printed.toList.any isSpecial then Builder.emit (.escapable value.printed)
      else Builder.push value.printed := by
  have changed : (value.output true != value.printed) = value.printed.toList.any isSpecial := by
    have same := escape_eq_self_iff value.printed
    cases special : value.printed.toList.any isSpecial with
    | true =>
      obtain ⟨char, member, one⟩ := List.any_eq_true.mp special
      refine bne_iff_ne.mpr fun equal => ?_
      rw [same.mp equal char member] at one
      cases one
    | false =>
      have plain : ∀ char ∈ value.printed.toList, isSpecial char = false := by simpa using special
      exact bne_eq_false_iff_eq.mpr (same.mpr plain)
  simp only [Compilation.outputItem, known, Bool.true_and, changed]

/-- A written text has none of the special characters but ampersands, and these begin entities. It is read
back to the text that it was written from, is that text just if this had no special character, and consists of
its pieces as they are written one by one. An output that is known becomes text by the same test. -/
theorem escape_reversible (text : String) :
    (∀ char ∈ (escape text).toList, char ∉ ['<', '>', '"', '\'']) ∧
      (∀ before after, (escape text).toList = before ++ '&' :: after →
        ∃ entity ∈ all, entity <+: '&' :: after) ∧
      decode (escape text) = text ∧
      (escape text = text ↔ ∀ char ∈ text.toList, char ∉ ['&', '<', '>', '"', '\'']) ∧
      (∀ more, escape (text ++ more) = escape text ++ escape more) ∧
      (∀ pieces, String.join pieces = text → String.join (pieces.map escape) = escape text) ∧
      ∀ (fold : Expr → Option Value) (expr : Expr) (value : Value),
        fold expr = some value → value.printed = text →
          Compilation.outputItem fold true expr =
            if text.toList.any isSpecial then Builder.emit (.escapable text) else Builder.push text := by
  refine ⟨?_, ?_, ?_, ?_, escape_append text, ?_, ?_⟩
  · intro char member other
    rw [toList_escape] at member
    have special : isSpecial char = true := isSpecial_iff.mpr (List.mem_cons_of_mem _ other)
    rw [mem_escapeChars member special] at other
    revert other
    decide
  · rw [toList_escape]
    exact marked_escapeChars text.toList
  · rw [decode, toList_escape, decodeChars_escapeChars, String.ofList_toList]
  · simp only [escape_eq_self_iff, ← isSpecial_iff, Bool.not_eq_true]
  · rintro pieces rfl
    exact (escape_join pieces).symm
  · rintro fold expr value known rfl
    exact outputItem_known known

example : escape "&lt; <b title='x'>" = "&amp;lt; &lt;b title=&#39;x&#39;&gt;" := by decide +kernel

end HtmlTemplate.Entities
