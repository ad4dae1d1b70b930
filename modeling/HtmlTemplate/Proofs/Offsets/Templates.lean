import HtmlTemplate.Proofs.Building.Single
import HtmlTemplate.Proofs.Content.Authored
import HtmlTemplate.Proofs.Offsets.Parts
import HtmlTemplate.Template.Source
import HtmlTemplate.Token.Document

/-! The offsets that come out of a source: the spans of its lines and of their parts, and the places at which it is
reported what keeps it from being a template. -/

namespace HtmlTemplate

/-- The offset is in a text or at its end, and not inside of a character. -/
structure IsBoundary (text : List Char) (offset : Nat) : Prop where
  le : offset ≤ byteLength text
  cuts : ∃ before after, text = before ++ after ∧ byteLength before = offset

/-- A span cuts a part out of its source: its ends are in order and no character is cut, so that there is
a text between them. In a source that is not too long for spans nothing is lost of the offsets. -/
structure Token.CutOut (source : List Char) (token : Token) : Prop where
  ordered : token.span.start ≤ token.span.stop
  start : IsBoundary source token.span.start
  stop : IsBoundary source token.span.stop
  sliced : sliceBytes? source token.span.start token.span.stop = some token.text.toList
  held : byteLength source ≤ Span.maxOffset →
    Span.ofRange token.span.start token.span.stop = token.span

namespace Offsets

open Token Line Building Compilation Builder

variable {origin : Input}

theorem wrap_fits {data : Token} (fits : Fits origin data) {start stop : Input}
    (begun : origin.Reaches start) (reached : start.Reaches stop) : Fits origin (wrap data start stop) :=
  (fits_between begun reached .line).withChildren (List.forall_mem_singleton.mpr fits)

theorem complete_fits {start : Input} (begun : origin.Reaches start) (kind : TokenKind)
    {parts : Parsed (List Token) start} (fits : Parts origin parts) :
    Part origin (complete kind parts) :=
  wrap_fits ((fits_between begun parts.reached kind).withChildren fits) begun parts.reached

/-! Lines with a mark. -/

theorem readPlain_settles {input : Input} (reached : origin.Reaches input) :
    Settles origin (Part origin) (readPlain input) :=
  .map (readText_settles reached) fun _ => complete_fits reached .textLine

theorem readRaw_fits {input : Input} (reached : origin.Reaches input) : Part origin (readRaw input) :=
  complete_fits reached .textLine (List.forall_mem_nil _)

theorem readComment_settles {input : Input} (reached : origin.Reaches input) :
    Settles origin (Part origin) (readComment input) := by
  have marked (count : Nat) := Input.reaches_advanceBy count input
  unfold readComment
  split
  · refine complete_fits reached .commentLine (List.forall_mem_cons.mpr
      ⟨fits_between reached (marked 3) _, ?_⟩)
    split
    · exact List.forall_mem_nil _
    · exact List.forall_mem_singleton.mpr
        (fits_between (reached.trans (marked 3)) (Input.reaches_skipRestOfLine _) _)
  · refine .bind (readText_settles (reached.trans (marked 2))) fun text fits => ?_
    exact complete_fits reached .commentLine
      (List.forall_mem_cons.mpr ⟨fits_between reached (marked 2) _, fits⟩)

theorem readPiped_settles {input : Input} (reached : origin.Reaches input) :
    Settles origin (Part origin) (readPiped input) := by
  have later := reached.trans ((Input.reaches_advance input).trans (Input.reaches_skipSpacing _))
  refine .bind (readText_settles later) fun text fits => ?_
  exact complete_fits reached .pipedLine (List.forall_mem_cons.mpr ⟨fits_mark reached _, fits⟩)

theorem readOutput_line_settles (markLength : Nat) (kind : TokenKind) {input : Input}
    (reached : origin.Reaches input) :
    Settles origin (Part origin) (Line.readOutput markLength kind input) := by
  have started := (Input.reaches_advanceBy markLength input).trans (Input.reaches_skipSpacing _)
  have begun := reached.trans started
  unfold Line.readOutput
  dsimp only
  split
  · exact complete_fits reached .outputLine (List.forall_mem_nil _)
  · refine .bind (embedded_settles .output .outputLine begun) fun output spelled => ?_
    split
    · exact complete_fits reached .outputLine (List.forall_mem_singleton.mpr (spelled.fits begun kind))
    · exact Settles.fault (begun.trans output.reached) _

theorem readCode_settles (lineStart : Input) {input : Input} (reached : origin.Reaches input) :
    Settles origin (Part origin) (Line.readCode lineStart input) := by
  have advanced := reached.trans (Input.reaches_advance input)
  unfold Line.readCode
  split
  · exact .bind (readBlock_settles _ _ _ advanced) fun _ fits => complete_fits reached .codeBlock fits
  · exact .bind (readStatements_settles _ _ _ advanced) fun _ fits => complete_fits reached .codeLine fits

theorem readArguments_settles {input : Input} (reached : origin.Reaches input) :
    Settles origin (Parts origin) (readArguments input) := by
  unfold readArguments
  split
  · exact .map (embedded_settles .inline .mixinCall reached) fun _ spelled =>
      List.forall_mem_singleton.mpr (spelled.fits reached _)
  · exact List.forall_mem_nil _

theorem readMixinCall_settles {input : Input} (reached : origin.Reaches input) :
    Settles origin (Part origin) (readMixinCall input) := by
  have spaced := (Input.reaches_advance input).trans (Input.reaches_skipSpacing _)
  have named := Input.reaches_dropWhile CharClass.isTagWord input.advance.skipSpacing
  have begun := reached.trans spaced
  unfold readMixinCall
  dsimp only
  split
  · exact Settles.fault begun _
  · refine .bind (readArguments_settles (begun.trans named)) fun arguments fits => ?_
    have stopped := named.trans (arguments.reached.trans (Input.reaches_skipSpacing _))
    split
    · exact wrap_fits ((fits_between begun named .mixinCall).withChildren fits) reached (spaced.trans stopped)
    · exact Settles.fault (begun.trans stopped) _

/-! Lines that begin with a word. -/

theorem readTarget_fits (kind : TokenKind) {input : Input} (reached : origin.Reaches input) :
    Part origin (readTarget kind input) := by
  have begins := (Blank.stripEnd_prefix CharClass.isSpacing _).trans
    (Input.textTo_prefix (Input.reaches_skipRestOfLine input))
  obtain ⟨last, lastReached, pos, text⟩ := Input.reaches_of_prefix begins
  refine .intro ⟨input, last, reached, lastReached, ?_, ?_⟩ (List.forall_mem_nil _)
  · exact congrArg (Span.mk input.pos) pos.symm
  · exact congrArg String.ofList text.symm

section

variable {start input : Input} (begun : origin.Reaches start) (reached : start.Reaches input)
include begun reached

theorem readStatement_settles (kind : TokenKind) :
    Settles origin (Part origin) (readStatement kind start input) := by
  refine .bind (embedded_settles .inline .control (begun.trans reached)) fun expr _ => ?_
  have stopped := reached.trans expr.reached
  split
  · exact .intro (fits_between begun stopped kind).stands (List.forall_mem_nil _)
  · exact Settles.fault (begun.trans stopped) _

theorem readMixinDefinition_settles : Settles origin (Part origin) (readMixinDefinition start input) := by
  refine .bind (readStatement_settles begun reached .mixinControl) fun definition fits => ?_
  split
  · exact fits
  · exact Settles.fault ((begun.trans reached).trans definition.reached) _

theorem readEach_settles : Settles origin (Part origin) (readEach start input) := by
  have named := Input.reaches_dropWhile CharClass.isTagWord input
  have after := begun.trans (reached.trans named)
  have second : Settles origin
      (fun second : Parsed (Option Token) (input.dropWhile CharClass.isTagWord) =>
        FitAll origin second.value.toList)
      (readSecondVariable (input.dropWhile CharClass.isTagWord)) := by
    have comma := after.trans (Input.reaches_skipSpacing _)
    have word := comma.trans ((Input.reaches_advance _).trans (Input.reaches_skipSpacing _))
    unfold readSecondVariable
    dsimp only
    split
    · split
      · split
        · exact List.forall_mem_singleton.mpr (fits_between word (Input.reaches_dropWhile ..) _)
        · exact List.forall_mem_nil _
      · exact Settles.fault (word.trans (Input.reaches_dropWhile ..)) _
    · exact List.forall_mem_nil _
  unfold readEach
  dsimp only
  split
  · exact Settles.fault after _
  · refine .bind second fun second fits => ?_
    have later := named.trans second.reached
    split
    · have place := later.trans ((Input.reaches_advanceBy 2 second.rest).trans (Input.reaches_skipSpacing _))
      refine .bind (embedded_settles .inline .each (begun.trans (reached.trans place))) fun source _ => ?_
      have first := fits_between (begun.trans reached) named .eachVariable
      have all := fits_between begun (reached.trans (place.trans source.reached)) .eachControl
      exact .intro all.stands (List.forall_mem_cons.mpr ⟨first, fits⟩)
    · exact Settles.fault (begun.trans (reached.trans later)) _

theorem readElseIf_settles : Settles origin (Part origin) (readElseIf start input) := by
  have after := reached.trans (Input.reaches_advanceBy 2 input)
  unfold readElseIf
  dsimp only
  split
  · exact Settles.fault (begun.trans after) _
  · exact .bind (readStatement_settles begun (after.trans (Input.reaches_skipSpacing _)) _) fun _ fits => fits

theorem readKeyword_settles (keyword : Keyword) :
    Settles origin (Part origin) (readKeyword keyword start input) := by
  cases keyword with
  | includeTarget =>
    unfold readKeyword
    dsimp only
    split
    · exact Settles.fault begun _
    · exact readTarget_fits _ (begun.trans reached)
  | doctype => exact readTarget_fits _ (begun.trans reached)
  | mixin => exact readMixinDefinition_settles begun reached
  | statement kind => exact readStatement_settles begun reached kind
  | each => exact readEach_settles begun reached

theorem readAlone_settles (kind : TokenKind) (fault : LexFault) {stop : Input}
    (stopped : start.Reaches stop) : Settles origin (Part origin) (readAlone kind fault start stop input) := by
  unfold readAlone
  split
  · exact fits_between begun stopped kind
  · exact Settles.fault (begun.trans reached) _

end

theorem readAfterName_settles {input : Input} (reached : origin.Reaches input) :
    Settles origin (Parts origin) (readAfterName input) := by
  unfold readAfterName
  split
  · exact .map (readText_settles (reached.trans (Input.reaches_skipSpacing input))) fun _ fits => fits
  · exact readTagParts_settles false reached

theorem readWord_settles {input : Input} (reached : origin.Reaches input) :
    Settles origin (Part origin) (readWord input) := by
  have word := Input.reaches_dropWhile CharClass.isTagWord input
  have after := word.trans (Input.reaches_skipSpacing _)
  unfold readWord
  dsimp only
  split
  · exact .bind (readKeyword_settles reached after _) fun _ fits => fits
  · split
    · exact .bind (readElseIf_settles reached after) fun _ fits => fits
    · split
      · exact .bind (readAlone_settles reached after _ _ word) fun _ fits => fits
      · split
        · exact .bind (readAlone_settles reached after _ _ word) fun _ fits => fits
        · split
          · exact fits_mark (reached.trans after) _
          · refine .bind (readAfterName_settles (reached.trans word)) fun parts fits => ?_
            exact complete_fits reached .tagLine
              (List.forall_mem_cons.mpr ⟨fits_between reached word _, fits⟩)

theorem readNameless_settles {input : Input} (reached : origin.Reaches input) :
    Settles origin (Part origin) (readNameless input) :=
  .bind (readTagParts_settles false reached) fun _ fits =>
    complete_fits reached .tagLine (List.forall_mem_cons.mpr ⟨fits_mark reached _, fits⟩)

theorem readDot_fits {input : Input} (reached : origin.Reaches input) : Part origin (readDot input) :=
  complete_fits reached .dotLine
    (List.forall_mem_singleton.mpr (fits_between reached (Input.reaches_advance input) _))

theorem readLine_settles (lineStart : Input) {input : Input} (reached : origin.Reaches input) :
    Settles origin (Part origin) (Line.read lineStart input) := by
  unfold Line.read
  dsimp only
  split
  · exact readComment_settles reached
  · split
    · exact readWord_settles reached
    · split
      · exact readNameless_settles reached
      · split
        · exact readDot_fits reached
        · split
          · exact readPiped_settles reached
          · split
            · exact readOutput_line_settles 1 _ reached
            · split
              · exact readOutput_line_settles 2 _ reached
              · split
                · exact readCode_settles lineStart reached
                · split
                  · exact readMixinCall_settles reached
                  · split
                    · exact readRaw_fits reached
                    · exact Settles.fault reached _

/-! Rows of lines. -/

theorem readChained_settles (lineStart input : Input) (reached : origin.Reaches input) :
    Settles origin (Parts origin) (Document.readChained lineStart input) := by
  fun_induction Document.readChained lineStart input with
  | case1 => exact List.forall_mem_nil _
  | case2 input colon start later _ step =>
    have begun := reached.trans later.1
    refine .bind (readLine_settles lineStart begun) fun line first => ?_
    refine .bind (step line (begun.trans line.reached)) fun more fits => ?_
    exact List.forall_mem_cons.mpr ⟨first, fits⟩
  | case3 => exact List.forall_mem_nil _

/-- The lines of a row stand in the source. -/
structure RowFits (origin : Input) (row : Row) : Prop where
  line : Fits origin row.line
  chained : FitAll origin row.chained

theorem readRow_settles (outline : Outline) (lineStart : Input) {input : Input}
    (reached : origin.Reaches input) :
    Settles origin (fun row => RowFits origin row.value) (Document.readRow outline lineStart input) := by
  unfold Document.readRow
  split
  · exact .bind (readPlain_settles reached) fun _ fits => ⟨fits, List.forall_mem_nil _⟩
  · refine .bind (readLine_settles lineStart reached) fun line first => ?_
    exact .bind (readChained_settles lineStart _ (reached.trans line.reached)) fun _ fits => ⟨first, fits⟩

theorem reaches_finishLine (input : Input) : input.Reaches (Document.finishLine input) := by
  unfold Document.finishLine
  dsimp only
  cases eaten : input.skipRestOfLine.eatNewline? with
  | none => exact Input.reaches_skipRestOfLine input
  | some next => exact (Input.reaches_skipRestOfLine input).trans (Input.passes_of_eatNewline? eaten).1

theorem readRows_settles (outline : Outline) (input : Input) (reached : origin.Reaches input) :
    Settles origin (fun rows => ∀ row ∈ rows, RowFits origin row) (Document.readRows outline input) := by
  fun_induction Document.readRows outline input with
  | case1 => exact List.forall_mem_nil _
  | case2 outline input _ content contentReached _ step =>
    exact step (reached.trans (contentReached.trans (reaches_finishLine _)))
  | case3 => exact Settles.fault reached _
  | case4 outline input _ content contentReached _ entered _ step =>
    have begun := reached.trans contentReached
    refine .bind (readRow_settles entered input begun) fun row first => ?_
    refine .bind (step row (begun.trans (row.reached.trans (reaches_finishLine _)))) fun rows fits => ?_
    exact List.forall_mem_cons.mpr ⟨first, fits⟩

theorem link_fits {line : Token} (fits : Fits origin line) {nested chained : List Token}
    (inner : FitAll origin nested) (others : FitAll origin chained) :
    Fits origin (Row.link line nested chained) := by
  induction chained generalizing line with
  | nil => exact fits.addChildren inner
  | cons next chained step =>
    obtain ⟨first, further⟩ := List.forall_mem_cons.mp others
    exact fits.addChildren (List.forall_mem_singleton.mpr (step first further))

theorem nest_fits {rows : List Row} (fits : ∀ row ∈ rows, RowFits origin row) :
    ∀ line ∈ Row.nest rows, Fits origin line.2 := by
  induction rows with
  | nil => exact List.forall_mem_nil _
  | cons row rows step =>
    obtain ⟨first, others⟩ := List.forall_mem_cons.mp fits
    have lines := step others
    refine List.forall_mem_cons.mpr ⟨link_fits first.line ?_ first.chained, ?_⟩
    · exact List.forall_mem_map.mpr fun line member => lines line (List.takeWhile_subset _ member)
    · exact fun line member => lines line ((List.dropWhile_suffix _).subset member)

/-- All parts of a template stand in its source. What keeps it from being read is reported at a place. -/
theorem ofSource_settles (source : List Char) :
    Settles (.ofText source) (Fits (.ofText source)) (Token.ofSource source) := by
  refine .bind (readRows_settles .start _ (.refl _)) fun rows fits => ?_
  have stop : (Input.ofText source).Reaches ⟨byteLength source, []⟩ :=
    ⟨source, (List.append_nil source).symm, (Nat.zero_add _).symm⟩
  have text : (Input.ofText source).textTo (byteLength source) = source :=
    Input.textTo_of_reaches (List.append_nil source).symm stop
  refine .intro ⟨_, _, .refl _, stop, rfl, ?_⟩ (List.forall_mem_map.mpr (nest_fits fits))
  exact congrArg String.ofList text.symm

/-! Cutting texts. -/

theorem isBoundary_of_reaches {source : List Char} {place : Input}
    (reached : (Input.ofText source).Reaches place) : IsBoundary source place.pos := by
  obtain ⟨read, rest, pos⟩ := reached
  have source_eq : source = read ++ place.rest := rest
  have offset : place.pos = byteLength read := pos.trans (Nat.zero_add _)
  refine ⟨?_, read, place.rest, source_eq, offset.symm⟩
  rw [source_eq, offset, byteLength_append]
  exact Nat.le_add_right ..

theorem isBoundary_of_ahead {source : List Char} {offset : Nat}
    (ahead : (Input.ofText source).Ahead offset) : IsBoundary source offset := by
  obtain ⟨place, reached, rfl⟩ := ahead
  exact isBoundary_of_reaches reached

/-- A part that stands in a source is cut out of it by its span. -/
theorem cutOut_of_stands {source : List Char} {token : Token} (stands : Stands (.ofText source) token) :
    CutOut source token := by
  obtain ⟨first, last, reached, later, span, text⟩ := stands
  have start := isBoundary_of_reaches reached
  have stop := isBoundary_of_reaches (reached.trans later)
  obtain ⟨before, beforeRest, firstPos⟩ := reached
  obtain ⟨read, readRest, lastPos⟩ := id later
  have source_eq : source = before ++ first.rest := beforeRest
  have starts : first.pos = byteLength before := firstPos.trans (Nat.zero_add _)
  have ordered : first.pos ≤ last.pos := by omega
  constructor
  · rw [span]
    exact ordered
  · rw [span]
    exact start
  · rw [span]
    exact stop
  · have dropped : dropBytes? first.pos source = some first.rest := by
      rw [starts, source_eq]
      exact dropBytes?_append ..
    have length : last.pos - first.pos = byteLength read := by omega
    have taken : takeBytes? (last.pos - first.pos) first.rest = some read := by
      rw [length, readRest]
      exact takeBytes?_append ..
    rw [span, text, String.toList_ofList, Input.textTo_of_reaches readRest later]
    unfold sliceBytes?
    rw [if_pos ordered, dropped]
    exact taken
  · intro short
    have startLe := start.le
    have stopLe := stop.le
    rw [span]
    exact congrArg₂ Span.mk (Nat.min_eq_left (startLe.trans short)) (Nat.min_eq_left (stopLe.trans short))

theorem fits_within {origin : Input} {root token : Token} (fits : Fits origin root)
    (within : root.Within token) : Fits origin token := by
  induction within with
  | root => exact fits
  | part _ member step => exact step.inner _ member

/-! Faults of the structure. -/

section

variable (origin) (fold : Expr → Option Value)

/-- Compiling a tree that stands in a source, for the places of its faults alone. -/
def placing : Loom :=
  .single fold (fun span _ => origin.Ahead span.start) (fun error _ => origin.Ahead error.offset)
    (fun _ _ => True) (fun _ => True)

variable {origin fold}

theorem placing_sound : (placing origin fold).Sound :=
  Upheld.sound (by constructor <;> (intros; trivial)) fold fun _ _ _ ahead => ahead

theorem Stands.ahead {token : Token} (stands : Stands origin token) : origin.Ahead token.span.start := by
  obtain ⟨first, last, reached, -, span, -⟩ := stands
  rw [span]
  exact reached.ahead

theorem fits_like {token : Token} (fits : Fits origin token) :
    Token.Like (placing origin fold).spans (placing origin fold).texts token token := by
  induction fits with
  | @intro token stands _ step =>
    obtain ⟨kind, span, text, expr, children⟩ := token
    exact .intro (Stands.ahead stands) (fun _ => rfl) (fun _ => rfl) (fun _ => rfl) (fun _ => rfl)
      (List.forall₂_same.mpr step)

/-- What keeps a tree that stands in a source from being compiled is reported at a place of the source. -/
theorem compile_ahead {pretty : Bool} {root : Token} (fits : Fits origin root)
    (stated : ∀ line ∈ root.children, line.Stated) {error : StructureError}
    (failed : compile fold pretty root = .error error) : origin.Ahead error.offset := by
  have like : (placing origin fold).Twins root.children root.children :=
    List.forall₂_same.mpr fun line member => fits_like (fits.inner line member)
  have layouts : (placing origin fold).layouts { pretty, depth := 0 } { pretty, depth := 0 } := rfl
  have ends : (placing origin fold).Weaves none none (block fold _ _ _ _) (block fold _ _ _ _) :=
    block_woven placing_sound layouts false none root.children like stated id
  replace ends := ends Builder.empty Builder.empty ⟨trivial, trivial⟩
  rw [compile_eq] at failed
  generalize block fold { pretty, depth := 0 } false none root.children Builder.empty = result
    at ends failed
  cases ends with
  | ok => cases failed
  | error reported =>
    cases failed
    exact reported

end

/-- Every span of a source that can be read cuts its part out of the source. What keeps a source from being
read or compiled is reported at an offset of the source that is not inside of a character. -/
theorem offsets_sound (options : TemplateOptions) (source : List Char) :
    (∀ root, Token.ofSource source = .ok root → ∀ token, root.Within token → CutOut source token) ∧
      (∀ error, Token.ofSource source = .error error → IsBoundary source error.offset) ∧
      ∀ error, Template.ofSource options source = .error error → IsBoundary source error.offset := by
  have settles := ofSource_settles source
  refine ⟨fun root read token within => ?_, fun error failed => ?_, fun error failed => ?_⟩
  · exact cutOut_of_stands (fits_within (settles.of_ok read) within).stands
  · rw [failed] at settles
    exact isBoundary_of_ahead settles
  · unfold Template.ofSource Template.ofSourceWith at failed
    cases read : Token.ofSource source with
    | error reported =>
      rw [read] at failed settles
      cases failed
      exact isBoundary_of_ahead settles
    | ok root =>
      rw [read] at failed
      dsimp only at failed
      cases compiled : compile Expr.constant? options.pretty root with
      | ok built =>
        rw [compiled] at failed
        cases failed
      | error reported =>
        rw [compiled] at failed
        cases failed
        exact isBoundary_of_ahead
          (compile_ahead (settles.of_ok read) (Token.ofSource_stated read) compiled)

/-- No name begins with the letter at byte 7, which is the seventh character. -/
example : (match Token.ofSource "p é #{ü}".toList with
    | .ok _ => none
    | .error error => some error.offset) = some 7 := by
  decide +kernel

end Offsets

end HtmlTemplate
