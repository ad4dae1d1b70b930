import HtmlTemplate.Proofs.Building.Weaving
import HtmlTemplate.Proofs.Respelling.Nesting
import HtmlTemplate.Template.Source

/-! Templates whose trees agree but for blanks: where their texts are the same they are dumped alike, and else they
have the same shape. -/

namespace HtmlTemplate.Respelling

open Builder Building Compilation CharClass Document Token

variable {shows : Bool} {text other more rest : String}

/-! Chunks. -/

/-- Two chunks that are dumped alike. -/
def Shows (withText : Bool) (chunk twin : Chunk) : Prop :=
  ∀ depth, Chunk.describeAt withText depth twin = Chunk.describeAt withText depth chunk

theorem describeAll_eq {withText : Bool} {chunks twins : List Chunk}
    (alike : List.Forall₂ (Shows withText) chunks twins) (depth : Nat) :
    Chunk.describeAll withText depth twins = Chunk.describeAll withText depth chunks := by
  induction alike with
  | nil => rfl
  | cons first _ step => rw [Chunk.describeAll, Chunk.describeAll, first, step]

theorem shows_text (agrees : Agrees shows text other) : Shows shows (.text text) (.text other) := by
  cases shows with
  | true =>
    cases agrees
    exact fun _ => rfl
  | false =>
    intro depth
    have bare (text : String) : Chunk.row false depth (.text text) = Chunk.row false depth (.text "") := by
      have hidden : Chunk.value (.text text) = "" ∨ Chunk.isText (.text text) = true ∧ (!false) = true :=
        .inr ⟨rfl, rfl⟩
      simp only [Chunk.row, if_pos hidden]
      rfl
    change Chunk.row false depth (.text other) ++ "" = Chunk.row false depth (.text text) ++ ""
    rw [bare other, bare text]

theorem shows_written (agrees : Agrees shows text other) :
    List.Forall₂ (Shows shows) (Folding.written text) (Folding.written other) := by
  unfold Folding.written
  by_cases empty : text = ""
  · rw [if_pos empty, if_pos (agrees.empty_iff.mp empty)]
    exact .nil
  · rw [if_neg empty, if_neg fun none => empty (agrees.empty_iff.mpr none)]
    exact .cons (shows_text agrees) .nil

/-- A chunk made of one body is dumped like the chunk made of another one that is dumped alike. -/
def Carries (withText : Bool) (make : List Chunk → Chunk) : Prop :=
  ∀ body twin, List.Forall₂ (Shows withText) body twin → Shows withText (make body) (make twin)

theorem carries_of_row {withText : Bool} {make : List Chunk → Chunk}
    (row : ∀ depth body, Chunk.describeAt withText depth (make body) =
      Chunk.row withText depth (make []) ++ Chunk.describeAll withText (depth + 1) body) :
    Carries withText make := by
  intro body twin alike depth
  rw [row, row, describeAll_eq alike]

theorem carries_control {withText : Bool} {token : Token} {make : List Chunk → Chunk}
    (found : control? token = some make) : Carries withText make := by
  refine carries_of_row fun depth body => ?_
  unfold control? at found
  split at found <;> cases found <;> try rfl
  -- What a loop is called depends on whether it has a second variable.
  all_goals cases (loopNames token.children)[1]? <;> rfl

/-! Builders. -/

/-- Two builders with chunks that are dumped alike and texts that correspond. -/
structure Joint (shows : Bool) (builder twin : Builder) : Prop where
  pending : Agrees shows builder.pending twin.pending
  emitted : List.Forall₂ (Shows shows) builder.emitted twin.emitted
  breaks : twin.breaks = builder.breaks
  atStart : twin.atStart = builder.atStart
  includes : twin.includes = builder.includes

/-- Two computations that go alike from builders that correspond. -/
abbrev Goes (shows : Bool) : BuildM Unit → BuildM Unit → Prop :=
  Woven (fun error other => other.fault = error.fault) (Joint shows) (Joint shows)

theorem Joint.chunks {builder twin : Builder} (joint : Joint shows builder twin) :
    List.Forall₂ (Shows shows) builder.chunks twin.chunks :=
  List.rel_append (List.rel_reverse joint.emitted) (shows_written joint.pending)

theorem push_goes (agrees : Agrees shows text other) : Goes shows (push text) (push other) := by
  intro builder twin joint
  rw [push_eq, push_eq]
  refine .ok ⟨joint.pending.append agrees, joint.emitted, joint.breaks, ?_, joint.includes⟩
  have same : (other == "") = (text == "") := by
    rw [Bool.eq_iff_iff, beq_iff_eq, beq_iff_eq, agrees.empty_iff]
  exact congrArg₂ and joint.atStart same

theorem note_goes (name : String) : Goes shows (noteInclude name) (noteInclude name) := by
  intro builder twin joint
  unfold noteInclude
  rw [modify_eq, modify_eq, joint.includes]
  split
  · exact .ok joint
  · exact .ok ⟨joint.pending, joint.emitted, joint.breaks, joint.atStart, rfl⟩

theorem newline_goes (layout : Layout) : Goes shows (newline layout) (newline layout) := by
  unfold newline
  split
  · intro builder twin joint
    rw [modify_eq, modify_eq, joint.atStart, joint.breaks]
    refine .ok ⟨?_, joint.emitted, rfl, rfl, joint.includes⟩
    dsimp only
    split
    · exact joint.pending
    · exact (joint.pending.append (.refl shows _)).append (.refl shows _)
  · exact .pure

theorem emit_goes (chunk : Chunk) : Goes shows (emit chunk) (emit chunk) := by
  intro builder twin joint
  rw [emit_eq, emit_eq]
  exact .ok ⟨.refl shows _, .cons (fun _ => rfl) (List.rel_append (shows_written joint.pending) joint.emitted),
    joint.breaks, rfl, joint.includes⟩

theorem enclosed_goes {make : List Chunk → Chunk} (carries : Carries shows make) {first second : BuildM Unit}
    (body : Goes shows first second) :
    Goes shows (do emit (make (← enclosed first))) (do emit (make (← enclosed second))) := by
  intro builder twin joint
  have inside := body { builder with pending := "", emitted := [], atStart := false }
    { twin with pending := "", emitted := [], atStart := false }
    ⟨.refl shows _, .nil, joint.breaks, rfl, joint.includes⟩
  rw [emit_enclosed_eq, emit_enclosed_eq]
  generalize first _ = result at inside
  generalize second _ = other at inside
  cases inside with
  | error same => exact .error same
  | ok inner =>
    exact .ok ⟨.refl shows _, .cons (carries _ _ inner.chunks)
      (List.rel_append (shows_written joint.pending) joint.emitted), inner.breaks, rfl, inner.includes⟩

/-- Looking at builders that correspond. -/
theorem looking_goes {next following : Builder → BuildM Unit}
    (goes : ∀ builder twin, Joint shows builder twin → Goes shows (next builder) (following twin)) :
    Goes shows (get >>= next) (get >>= following) :=
  fun builder twin joint => goes builder twin joint builder twin joint

section

variable (fold : Expr → Option Value)

theorem item_goes (escape : Bool) (expr : Expr) :
    Goes shows (outputItem fold escape expr) (outputItem fold escape expr) := by
  unfold outputItem
  split
  · exact emit_goes _
  · split
    · exact emit_goes _
    · exact push_goes (.refl shows _)

theorem code_goes (expr : Expr) : Goes shows (code fold expr) (code fold expr) := by
  unfold code
  split
  · exact emit_goes _
  · exact .pure

theorem attr_goes (escape : Bool) (name : String) (value : Option Expr) :
    Goes shows (attr fold escape name value) (attr fold escape name value) := by
  unfold attr
  split
  · exact .bind (push_goes (.refl shows _)) (push_goes (.refl shows _))
  · split
    · exact push_goes (.refl shows _)
    · exact emit_goes _

end

/-! Trees. -/

/-- Compiling two trees whose texts correspond. -/
def respelling (shows : Bool) (fold : Expr → Option Value) : Loom where
  fold := fold
  other := fold
  layouts := (· = ·)
  spans _ _ := True
  texts := Agrees shows
  faults error other := other.fault = error.fault
  fits := Stated
  related _ := Joint shows
  branching := Joint shows

theorem respelling_sound (shows : Bool) (fold : Expr → Option Value) : (respelling shows fold).Sound where
  unready joint := joint
  plain := .refl shows
  fault _ _ _ _ := rfl
  stated stated := stated
  inner stated := stated.inner
  depth same := congrArg Layout.depth same.symm
  deeper same := by
    cases same
    rfl
  packed same := by
    cases same
    rfl
  pushed agrees := push_goes agrees
  noted := note_goes
  begun same := by
    cases same
    exact newline_goes _
  opened same ownLine name := by
    cases same
    unfold opening
    split
    · exact newline_goes _
    · exact .pure
  nested same ownLine name ending body twin goes := by
    cases same
    refine looking_goes fun builder twin joint => .bind goes (looking_goes fun after later joined => ?_)
    rw [joint.breaks, joined.breaks]
    dsimp only
    split
    · exact Woven.bind (newline_goes _) (push_goes (.refl shows _))
    · exact push_goes (.refl shows _)
  parted same _ afterText := by
    cases same
    unfold parting
    split
    · exact newline_goes _
    · split
      · exact push_goes (.refl shows _)
      · exact .pure
  item := item_goes fold
  coded := code_goes fold
  given := attr_goes fold
  put _ := emit_goes _
  controlled found _ body := enclosed_goes (carries_control found) body
  shared name signature _ _ _ body := enclosed_goes (carries_of_row fun _ _ => rfl) body
  branched found _ body := enclosed_goes (carries_control found) body
  chosen _ _ subject _ _ _ body := enclosed_goes (carries_of_row fun _ _ => rfl) body

/-- What is compiled of two trees: chunks that are dumped alike, or the same fault. -/
def Compiled (shows : Bool) (fold : Expr → Option Value) (pretty : Bool) (root twin : Token) : Prop :=
  Both (fun error other => other.fault = error.fault)
    (fun built other => List.Forall₂ (Shows shows) built.1 other.1)
    (compile fold pretty root) (compile fold pretty twin)

/-- Where the outermost bodies go alike from the start, so do the trees. -/
theorem compiled_of_goes {fold : Expr → Option Value} {pretty : Bool} {root twin : Token}
    (goes : Goes shows (block fold { pretty, depth := 0 } false none root.children)
      (block fold { pretty, depth := 0 } false none twin.children)) : Compiled shows fold pretty root twin := by
  have ends := goes Builder.empty Builder.empty ⟨.refl shows _, .nil, rfl, rfl, rfl⟩
  unfold Compiled
  rw [compile_eq, compile_eq]
  generalize block fold { pretty, depth := 0 } false none root.children Builder.empty = result at ends
  generalize block fold { pretty, depth := 0 } false none twin.children Builder.empty = other at ends
  cases ends with
  | ok joint => exact .ok joint.chunks
  | error same => exact .error same

/-- Trees that correspond are compiled to chunks that are dumped alike, or not for the same reason. -/
theorem compile_alike (fold : Expr → Option Value) (pretty : Bool) {root twin : Token}
    (like : List.Forall₂ (Token.Like (fun _ _ => True) (Agrees shows)) root.children twin.children)
    (stated : ∀ line ∈ root.children, line.Stated) : Compiled shows fold pretty root twin := by
  have layouts : (respelling shows fold).layouts { pretty, depth := 0 } { pretty, depth := 0 } := rfl
  exact compiled_of_goes <|
    block_woven (respelling_sound shows fold) layouts false none root.children like stated id

/-! Sources. -/

/-- Two sources whose trees are compiled alike are templates that are dumped alike, or are refused with the same
message. -/
theorem template_of_compiled (options : TemplateOptions) {source other : List Char}
    (read : Both (fun error other => other.fault = error.fault) (Compiled shows Expr.constant? options.pretty)
      (Token.ofSource source) (Token.ofSource other)) :
    Both (fun error other => other.message = error.message)
      (fun template other => other.describe shows = template.describe shows)
      (Template.ofSource options source) (Template.ofSource options other) := by
  unfold Template.ofSource Template.ofSourceWith
  generalize Token.ofSource source = result at read
  generalize Token.ofSource other = twin at read
  cases read with
  | error same => exact .error (congrArg LexFault.message same)
  | @ok root _ built =>
    unfold Compiled at built
    dsimp only
    generalize compile Expr.constant? options.pretty root = compiled at built
    generalize compile Expr.constant? options.pretty _ = another at built
    cases built with
    | error same => exact .error (congrArg StructureFault.message same)
    | ok alike => exact .ok (congrArg ("Block\n" ++ ·) (describeAll_eq alike 1))

/-- Two sources whose lines make the same trees are templates that are dumped alike, or are refused with the same
message. -/
theorem template_alike {spelling : Spelling} (options : TemplateOptions) {source other : List Char}
    (read : Both (fun error other => other.fault = error.fault)
      (fun root twin => List.Forall₂ (Akin spelling) root.children twin.children) (Token.ofSource source)
      (Token.ofSource other))
    (unbroken : ∀ root, Token.ofSource source = .ok root → root.isUnbroken = true) :
    Both (fun error other => other.message = error.message)
      (fun template other => other.describe spelling.shows = template.describe spelling.shows)
      (Template.ofSource options source) (Template.ofSource options other) := by
  refine template_of_compiled options (read.known.mono fun root twin both => ?_)
  obtain ⟨akin, found, -⟩ := both
  have parts := (Token.isUnbroken_iff.mp (unbroken root found)).2.2
  exact compile_alike Expr.constant? options.pretty (likes akin (.inr parts)) (Token.ofSource_stated found)

end HtmlTemplate.Respelling
