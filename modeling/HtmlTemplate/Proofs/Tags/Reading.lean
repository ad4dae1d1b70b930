import HtmlTemplate.Text.CharClass
import HtmlTemplate.Value.Printing

/-! The tags in markup and whether they are properly nested, and where one who reads markup is after a
part of it: in text or in a tag, and which tags are open there. -/

namespace HtmlTemplate.Tags

open CharClass

inductive Tag where
  | opening (name : List Char)
  | closing (name : List Char)
  /-- One that has a slash at its end. -/
  | single
  deriving DecidableEq

/-- The tag that has a text between its angle brackets. -/
def Tag.ofInner (inner : List Char) : Tag :=
  if inner.head? = some '/' then .closing inner.tail
  else if inner.getLast? = some '/' then .single
  else .opening (inner.takeWhile isTagWord)

/-- The tags of a text that begins outside of all tags, or in a tag that some text has been read of.
There are none if the text ends in a tag, or has an angle bracket that belongs to no tag. -/
def tagsFrom : Option (List Char) → List Char → Option (List Tag)
  | none, [] => some []
  | some _, [] => none
  | none, char :: rest =>
    if char = '<' then tagsFrom (some []) rest
    else if char = '>' then none
    else tagsFrom none rest
  | some inner, char :: rest =>
    if char = '>' then (tagsFrom none rest).map (Tag.ofInner inner :: ·)
    else if char = '<' then none
    else tagsFrom (some (inner ++ [char])) rest

/-- Whether some tags close what they open, and before that the elements that are open, the innermost
one first. -/
def nests : List (List Char) → List Tag → Bool
  | opened, [] => opened.isEmpty
  | opened, .opening name :: rest => nests (name :: opened) rest
  | [], .closing _ :: _ => false
  | name :: opened, .closing other :: rest => name == other && nests opened rest
  | opened, .single :: rest => nests opened rest

theorem nests_single (opened : List (List Char)) (tags : List Tag) :
    nests opened (.single :: tags) = nests opened tags := by
  cases opened <;> rfl

/-- Whether the tags of a text form a balanced and properly nested sequence. -/
def isNested (text : String) : Bool := (tagsFrom none text.toList).any (nests [])

/-! Texts without angle brackets. -/

def isBracket (char : Char) : Bool := char == '<' || char == '>'

/-- No character is an angle bracket. -/
def isClean (text : List Char) : Bool := text.all (!isBracket ·)

theorem isClean_append (first second : List Char) :
    isClean (first ++ second) = (isClean first && isClean second) :=
  List.all_append

theorem isClean_cons (char : Char) (rest : List Char) :
    isClean (char :: rest) = (!isBracket char && isClean rest) :=
  rfl

/-- A class of characters that has no angle bracket. -/
theorem isClean_of_all {isOne : Char → Bool} (opening : isOne '<' = false) (closing : isOne '>' = false)
    {text : List Char} (all : text.all isOne = true) : isClean text = true := by
  refine List.all_eq_true.mpr fun char member => ?_
  have within := List.all_eq_true.mp all char member
  cases bracket : isBracket char with
  | false => rfl
  | true =>
    rcases Bool.or_eq_true_iff.mp bracket with is | is
    · rw [beq_iff_eq.mp is, opening] at within
      cases within
    · rw [beq_iff_eq.mp is, closing] at within
      cases within

theorem isClean_of_isTagWord {text : List Char} (words : text.all isTagWord = true) : isClean text = true :=
  isClean_of_all rfl rfl words

theorem isClean_escape (text : String) : isClean (Entities.escape text).toList = true := by
  have one (char : Char) : isClean (Entities.escapeChar char) = true := by
    unfold Entities.escapeChar
    split
    · decide
    split
    · decide
    split
    · decide
    split
    · decide
    split
    · decide
    · rename_i opens closes _ _
      simp only [isClean, isBracket, List.all_cons, List.all_nil, Bool.and_true, opens, closes,
        Bool.or_self, Bool.not_false]
  rw [Entities.toList_escape]
  refine List.all_eq_true.mpr fun char member => ?_
  obtain ⟨written, -, inside⟩ := List.mem_flatMap.mp member
  exact List.all_eq_true.mp (one written) char inside

/-! Reading on. -/

/-- Where one who reads markup is: the elements that are open, the innermost one first, and what has been
read of a tag. -/
structure Scan where
  opened : List (List Char)
  inner : Option (List Char)

/-- The text that is still to be read closes everything. -/
def Scan.Ends (scan : Scan) (text : List Char) : Prop :=
  ∃ tags, tagsFrom scan.inner text = some tags ∧ nests scan.opened tags = true

theorem isNested_iff (text : String) : isNested text = true ↔ Scan.Ends ⟨[], none⟩ text.toList := by
  unfold isNested Scan.Ends
  cases tagsFrom none text.toList with
  | none => exact ⟨nofun, nofun⟩
  | some tags =>
    refine ⟨fun nested => ⟨tags, rfl, nested⟩, ?_⟩
    rintro ⟨_, ⟨⟩, nested⟩
    exact nested

/-- A text is what is read on the way from one place to a later one. -/
def Scan.Reads (scan : Scan) (text : List Char) (later : Scan) : Prop :=
  ∀ rest, later.Ends rest → scan.Ends (text ++ rest)

namespace Scan.Reads

variable {scan later last : Scan} {text more : List Char} {opened : List (List Char)}

theorem refl (scan : Scan) : scan.Reads [] scan := fun _ ends => ends

theorem trans (first : scan.Reads text later) (second : later.Reads more last) :
    scan.Reads (text ++ more) last := by
  intro rest ends
  rw [List.append_assoc]
  exact first _ (second rest ends)

/-- Text outside of tags. -/
theorem outside (clean : isClean text = true) : Scan.Reads ⟨opened, none⟩ text ⟨opened, none⟩ := by
  induction text with
  | nil => exact refl _
  | cons char text step =>
    obtain ⟨plain, clean⟩ := Bool.and_eq_true_iff.mp clean
    have other : char ≠ '<' ∧ char ≠ '>' := by simpa [isBracket] using plain
    intro rest ends
    obtain ⟨tags, found, nested⟩ := step clean rest ends
    exact ⟨tags, by rw [List.cons_append, tagsFrom, if_neg other.1, if_neg other.2, found], nested⟩

/-- Text in a tag. -/
theorem inside (clean : isClean text = true) (inner : List Char) :
    Scan.Reads ⟨opened, some inner⟩ text ⟨opened, some (inner ++ text)⟩ := by
  induction text generalizing inner with
  | nil =>
    rw [List.append_nil]
    exact refl _
  | cons char text step =>
    obtain ⟨plain, clean⟩ := Bool.and_eq_true_iff.mp clean
    have other : char ≠ '<' ∧ char ≠ '>' := by simpa [isBracket] using plain
    intro rest ends
    rw [List.append_cons] at ends
    obtain ⟨tags, found, nested⟩ := step clean _ rest ends
    exact ⟨tags, by rw [List.cons_append, tagsFrom, if_neg other.2, if_neg other.1, found], nested⟩

theorem opens : Scan.Reads ⟨opened, none⟩ ['<'] ⟨opened, some []⟩ := fun _ ends => ends

/-- The end of a tag. -/
theorem closes {inner : List Char} {opened after : List (List Char)}
    (nests : ∀ tags, nests after tags = true → nests opened (Tag.ofInner inner :: tags) = true) :
    Scan.Reads ⟨opened, some inner⟩ ['>'] ⟨after, none⟩ := by
  rintro rest ⟨tags, found, nested⟩
  refine ⟨Tag.ofInner inner :: tags, ?_, nests tags nested⟩
  dsimp only at found
  rw [List.singleton_append, tagsFrom, if_pos rfl, found, Option.map_some]

end Scan.Reads

/-! Places relative to the start of a part. -/

/-- A place in a part of some markup: the elements that are open there and were not at its start, and the
name of the tag that the place is in, if it is in one. -/
structure Place where
  opened : List (List Char)
  tag : Option (List Char)

/-- At the start of a part. -/
def Place.start : Place := ⟨[], none⟩

/-- The text of a tag begins with its name. -/
structure Begun (name inner : List Char) : Prop where
  named : name ≠ []
  words : name.all isTagWord = true
  begins : ∃ more, inner = name ++ more ∧ ∀ char ∈ more.head?, isTagWord char = false
  /-- It may end here without being one that is closed by itself. -/
  goesOn : inner.getLast? ≠ some '/'

namespace Begun

variable {name inner text : List Char}

theorem last_word (words : name.all isTagWord = true) : name.getLast? ≠ some '/' := by
  intro slash
  have word := List.all_eq_true.mp words _ (List.mem_of_getLast? slash)
  cases word

theorem whole (named : name ≠ []) (words : name.all isTagWord = true) : Begun name name :=
  ⟨named, words, ⟨[], (List.append_nil name).symm, nofun⟩, last_word words⟩

/-- More of a tag, after the word that is its name. -/
theorem append (begun : Begun name inner) (apart : ∀ char ∈ text.head?, isTagWord char = false)
    (goesOn : text.getLast? ≠ some '/') : Begun name (inner ++ text) := by
  obtain ⟨more, same, ended⟩ := begun.begins
  refine ⟨begun.named, begun.words, ⟨more ++ text, by rw [same, List.append_assoc], ?_⟩, ?_⟩
  · intro char first
    rw [List.head?_append] at first
    cases more with
    | nil => exact apart char first
    | cons => exact ended char first
  · rw [List.getLast?_append]
    cases text with
    | nil => exact begun.goesOn
    | cons char rest =>
      rw [List.getLast?_cons, Option.some_or]
      rwa [List.getLast?_cons] at goesOn

theorem head (begun : Begun name inner) : inner.head? ≠ some '/' := by
  obtain ⟨more, rfl, -⟩ := begun.begins
  obtain ⟨first, rest, rfl⟩ := List.exists_cons_of_ne_nil begun.named
  intro slash
  cases slash
  cases begun.words

theorem takeWhile (begun : Begun name inner) : inner.takeWhile isTagWord = name := by
  obtain ⟨more, rfl, ended⟩ := begun.begins
  rw [List.takeWhile_append_of_pos (List.all_eq_true.mp begun.words)]
  cases more with
  | nil => exact List.append_nil name
  | cons char rest => rw [List.takeWhile_cons_of_neg (by simp [ended char rfl]), List.append_nil]

/-- A tag that ends here opens an element. -/
theorem opening (begun : Begun name inner) : Tag.ofInner inner = .opening name := by
  unfold Tag.ofInner
  rw [if_neg begun.head, if_neg begun.goesOn, begun.takeWhile]

/-- After a slash it is closed by itself. -/
theorem single (begun : Begun name inner) : Tag.ofInner (inner ++ ['/']) = .single := by
  have head : (inner ++ ['/']).head? = inner.head? := by
    obtain ⟨more, rfl, -⟩ := begun.begins
    obtain ⟨first, rest, rfl⟩ := List.exists_cons_of_ne_nil begun.named
    rfl
  unfold Tag.ofInner
  rw [head, if_neg begun.head, List.getLast?_concat, if_pos rfl]

end Begun

/-- One who reads markup is at a place of the part that begins where some elements were open. -/
inductive Stands (base : List (List Char)) : Place → Scan → Prop where
  | outside (opened : List (List Char)) : Stands base ⟨opened, none⟩ ⟨opened ++ base, none⟩
  | inside (opened : List (List Char)) {name inner : List Char} (begun : Begun name inner) :
      Stands base ⟨opened, some name⟩ ⟨opened ++ base, some inner⟩

/-- A text leads from one place of a part to another one. -/
def Carries (text : String) (before after : Place) : Prop :=
  ∀ base scan, Stands base before scan → ∃ later, Stands base after later ∧ scan.Reads text.toList later

namespace Carries

variable {text more name : String} {before between after : Place} {opened : List (List Char)}

theorem empty (place : Place) : Carries "" place place := fun _ scan stands => ⟨scan, stands, .refl scan⟩

theorem append (first : Carries text before between) (second : Carries more between after) :
    Carries (text ++ more) before after := by
  intro base scan stands
  obtain ⟨middle, there, reads⟩ := first base scan stands
  obtain ⟨later, ends, further⟩ := second base middle there
  rw [String.toList_append]
  exact ⟨later, ends, reads.trans further⟩

/-- What leads back to the start of a part leads back to any place outside of tags. -/
theorem anywhere (whole : Carries text .start .start) : Carries text ⟨opened, none⟩ ⟨opened, none⟩ := by
  intro base scan stands
  cases stands
  obtain ⟨later, ends, reads⟩ := whole (opened ++ base) _ (.outside [])
  cases ends
  exact ⟨_, .outside opened, reads⟩

/-- Text outside of tags. -/
theorem outside (clean : isClean text.toList = true) : Carries text ⟨opened, none⟩ ⟨opened, none⟩ := by
  intro base scan stands
  cases stands
  exact ⟨_, .outside opened, .outside clean⟩

/-- The beginning of a tag. -/
theorem begin (named : name.toList ≠ []) (words : name.toList.all isTagWord = true) :
    Carries ("<" ++ name) ⟨opened, none⟩ ⟨opened, some name.toList⟩ := by
  intro base scan stands
  cases stands
  refine ⟨_, .inside opened (.whole named words), ?_⟩
  rw [String.toList_append]
  exact .trans .opens (.inside (isClean_of_isTagWord words) [])

/-- More of a tag. -/
theorem inside {tag : List Char} (clean : isClean text.toList = true)
    (apart : ∀ char ∈ text.toList.head?, isTagWord char = false) (goesOn : text.toList.getLast? ≠ some '/') :
    Carries text ⟨opened, some tag⟩ ⟨opened, some tag⟩ := by
  intro base scan stands
  cases stands with
  | inside _ begun => exact ⟨_, .inside opened (begun.append apart goesOn), .inside clean _⟩

/-- The end of a tag that opens an element. -/
theorem opening {tag : List Char} : Carries ">" ⟨opened, some tag⟩ ⟨tag :: opened, none⟩ := by
  intro base scan stands
  cases stands with
  | inside _ begun =>
    refine ⟨_, .outside (tag :: opened), .closes fun tags nested => ?_⟩
    rw [begun.opening]
    exact nested

/-- The end of a tag that is closed by itself. -/
theorem single {tag : List Char} : Carries "/>" ⟨opened, some tag⟩ ⟨opened, none⟩ := by
  intro base scan stands
  cases stands with
  | inside _ begun =>
    have slash : isClean ['/'] = true := rfl
    refine ⟨_, .outside opened, .trans (.inside slash _) (.closes fun tags nested => ?_)⟩
    rwa [begun.single, nests_single]

/-- The end of an element. -/
theorem close (words : name.toList.all isTagWord = true) :
    Carries ("</" ++ name ++ ">") ⟨name.toList :: opened, none⟩ ⟨opened, none⟩ := by
  intro base scan stands
  cases stands
  have text : ("</" ++ name ++ ">").toList = ['<'] ++ ('/' :: name.toList) ++ ['>'] := by
    simp only [String.toList_append]
    rfl
  have clean : isClean ('/' :: name.toList) = true := by
    rw [isClean_cons, isClean_of_isTagWord words]
    rfl
  refine ⟨_, .outside opened, ?_⟩
  rw [text]
  refine .trans (.trans .opens (.inside clean [])) (.closes fun tags nested => ?_)
  change (name.toList == name.toList && _) = true
  rw [beq_self_eq_true, Bool.true_and]
  exact nested

/-- What is put in a tag after a blank. -/
theorem spaced {tag : List Char} (clean : isClean text.toList = true)
    (goesOn : text.toList.getLast? ≠ some '/') : Carries (" " ++ text) ⟨opened, some tag⟩ ⟨opened, some tag⟩ := by
  have all : (" " ++ text).toList = ' ' :: text.toList := String.toList_append
  refine inside ?_ ?_ ?_
  · rw [all, isClean_cons, clean]
    rfl
  · rw [all]
    rintro _ ⟨⟩
    rfl
  · rw [all, List.getLast?_cons]
    cases last : text.toList.getLast? with
    | none => nofun
    | some char => rwa [last] at goesOn

/-- An attribute with a value. -/
theorem valued {tag : List Char} (clean : isClean name.toList = true) (escaped : isClean text.toList = true) :
    Carries (" " ++ name ++ "=\"" ++ text ++ "\"") ⟨opened, some tag⟩ ⟨opened, some tag⟩ := by
  have all : " " ++ name ++ "=\"" ++ text ++ "\"" = " " ++ (name ++ ("=\"" ++ (text ++ "\""))) := by
    simp only [String.append_assoc]
  have last : (name ++ ("=\"" ++ (text ++ "\""))).toList =
      (name.toList ++ ('=' :: '"' :: text.toList)) ++ ['"'] := by
    simp only [String.toList_append, List.append_assoc]
    rfl
  rw [all]
  refine spaced ?_ ?_
  · rw [last, isClean_append, isClean_append, clean, isClean_cons, isClean_cons, escaped]
    rfl
  · rw [last, List.getLast?_concat]
    nofun

/-- An attribute without a value. -/
theorem flag {tag : List Char} (bare : name.toList.all isAttrWord = true) :
    Carries (" " ++ name) ⟨opened, some tag⟩ ⟨opened, some tag⟩ := by
  refine spaced (isClean_of_all rfl rfl bare) fun slash => ?_
  have word := List.all_eq_true.mp bare _ (List.mem_of_getLast? slash)
  cases word

/-- An attribute with a bare name, whatever its value is. -/
theorem markup {tag : List Char} (bare : name.toList.all isAttrWord = true) (value : Value) :
    Carries (value.attributeMarkup name true) ⟨opened, some tag⟩ ⟨opened, some tag⟩ := by
  unfold Value.attributeMarkup
  split
  · exact empty _
  · exact empty _
  · exact flag bare
  · exact valued (isClean_of_all rfl rfl bare) (isClean_escape _)

end Carries

end HtmlTemplate.Tags
