import HtmlTemplate.Proofs.Building.Weaving
import HtmlTemplate.Proofs.Placing.Cells

/-! A template that is put into a list of cells, beside the tree that is made of it. Both ways of compiling
hold the same text back, so each chunk of the tree comes into the cell that is open when it is made. -/

namespace HtmlTemplate

/-! Lists that grow. -/

namespace Cell

theorem holding_nil : holding [] = id := by
  funext cell
  simp [holding]

theorem holding_comp (places others : List Nat) :
    holding others ∘ holding places = holding (places ++ others) := by
  funext cell
  simp [holding]

theorem modify_append_of_lt {place : Nat} {cells : List Cell} (inside : place < cells.length)
    (change : Cell → Cell) (more : List Cell) :
    (cells ++ more).modify place change = cells.modify place change ++ more := by
  induction cells generalizing place with
  | nil => simp at inside
  | cons cell cells step =>
    cases place with
    | zero => rfl
    | succ place => simpa using step (by simpa using inside)

theorem modify_last (cells : List Cell) (cell : Cell) (change : Cell → Cell) :
    (cells ++ [cell]).modify cells.length change = cells ++ [change cell] := by
  simp [List.modify_eq_take_drop]

theorem included_append (cells more : List Cell) : included (cells ++ more) = included cells ++ included more := by
  simp [included]

/-- What is put into a cell does not change what it holds itself. -/
theorem included_holding (places : List Nat) (place : Nat) (cells : List Cell) :
    included (cells.modify place (holding places)) = included cells := by
  induction cells generalizing place with
  | nil => simp
  | cons cell cells step =>
    cases place with
    | zero => simp [included, List.filter_cons, holding, apply_ite]
    | succ place =>
      rw [List.modify_succ_cons, ← List.singleton_append, included_append, step, ← included_append,
        List.singleton_append]

theorem matches_ofChunk {depth : Nat} {chunk : Chunk}
    (around : ∀ name number, chunk = .includeTemplate name number → depth = number) :
    (ofChunk depth chunk).Matches chunk :=
  ⟨rfl, rfl, rfl, around⟩

end Cell

/-- Some chunks have been put into the cell at a place, and lie after all the cells that there were. -/
def Grown (place : Nat) (chunks : List Chunk) (before after : List Cell) : Prop :=
  ∃ roots added, Laid before.length chunks roots added ∧
    after = before.modify place (Cell.holding roots) ++ added

namespace Grown

variable {place : Nat} {chunks others : List Chunk} {before between after cells : List Cell}

theorem nil : Grown place [] cells cells := by
  refine ⟨[], [], .nil, ?_⟩
  simp [Cell.holding_nil]

theorem length_le (grown : Grown place chunks before after) : before.length ≤ after.length := by
  obtain ⟨roots, added, -, rfl⟩ := grown
  simp

theorem append (first : Grown place chunks before between) (second : Grown place others between after)
    (inside : place < before.length) : Grown place (chunks ++ others) before after := by
  obtain ⟨roots, added, laid, rfl⟩ := first
  obtain ⟨more, further, also, rfl⟩ := second
  refine ⟨roots ++ more, added ++ further, laid.append ?_, ?_⟩
  · simpa using also
  · rw [Cell.modify_append_of_lt (by simpa using inside), List.modify_modify_eq, Cell.holding_comp,
      List.append_assoc]

/-- A chunk that has been put into a cell, and what has been put into the chunk since then. -/
theorem body {cell : Cell} {chunk : Chunk} (same : cell.Matches chunk) (empty : cell.children = [])
    (inside : place < cells.length)
    (grown : Grown cells.length chunk.body ((cells ++ [cell]).modify place (Cell.holding [cells.length])) after) :
    Grown place [chunk] cells after := by
  obtain ⟨roots, added, laid, rfl⟩ := grown
  have full : (cell.holding roots).Matches chunk := ⟨same.kind, same.value, same.expr, same.depth⟩
  have inner : Laid (cells.length + 1) chunk.body (cell.holding roots).children added := by
    simpa [Cell.holding, empty] using laid
  refine ⟨[cells.length], cell.holding roots :: added, ?_, ?_⟩
  · simpa using Laid.cons full inner .nil
  · have last := Cell.modify_last (cells.modify place (Cell.holding [cells.length])) cell (Cell.holding roots)
    rw [List.length_modify] at last
    rw [Cell.modify_append_of_lt inside, last, List.append_assoc]
    rfl

end Grown

namespace Chunk

/-- Chunks after which others may come: no text is empty or next to another one, and the last is not text. -/
structure Settled (chunks : List Chunk) : Prop where
  tidy : Tidy chunks
  last : ∀ chunk ∈ chunks.getLast?, chunk.isText = false

theorem tidy_written (text : String) : Tidy (Folding.written text) := by
  unfold Folding.written
  split
  · exact .nil
  · exact .single (fun _ => ‹_›) .nil

namespace Settled

variable {chunks others : List Chunk}

theorem nil : Settled [] := ⟨.nil, nofun⟩

theorem append (settled : Settled chunks) (further : Settled others) : Settled (chunks ++ others) := by
  refine ⟨settled.tidy.append further.tidy settled.last, ?_⟩
  rw [List.getLast?_append]
  cases latest : others.getLast? with
  | none => simpa using settled.last
  | some chunk => simpa using further.last chunk latest

/-- The text that has been held back may come last. -/
theorem closed (settled : Settled chunks) (text : String) : Tidy (chunks ++ Folding.written text) :=
  settled.tidy.append (tidy_written text) settled.last

theorem emitted (text : String) {chunk : Chunk} (other : chunk.isText = false) (inner : Tidy chunk.body) :
    Settled (Folding.written text ++ [chunk]) := by
  have one : Tidy [chunk] := .single (fun isText => by simp [other] at isText) inner
  refine ⟨?_, by simpa using other⟩
  unfold Folding.written
  split
  · exact one
  · rename_i nonempty
    refine ⟨?_, ?_, ?_⟩
    · simp [other, value, nonempty]
    · simp [other]
    · intro member among
      obtain rfl | rfl := by simpa using among
      · exact .nil
      · exact inner

end Settled

end Chunk

open Chunk (Tidy Settled)

namespace Placing

open Builder (enclosed)
open Folding (written)

/-! Both states side by side. -/

/-- A list of cells and a tree that have come equally far. The names in `noted` are those of templates that
are named already, but whose chunks are still to come. -/
structure Beside (noted : List String) (builder : Builder) (placing : Placing) : Prop where
  pending : placing.pending = builder.pending
  breaks : placing.breaks = builder.breaks
  atStart : placing.atStart = builder.atStart
  includes : placing.includes = builder.includes
  inside : placing.current < placing.cells.length
  named : placing.includes = (Cell.included placing.cells ++ noted).eraseDups

/-- The same chunks have been put into the body of a tree and into the open cell of a list. -/
structure Puts (chunks : List Chunk) (builder : Builder) (placing : Placing) (built : Builder)
    (placed : Placing) : Prop where
  emitted : built.emitted = chunks.reverse ++ builder.emitted
  grown : Grown placing.current chunks placing.cells placed.cells
  current : placed.current = placing.current
  started : builder.atStart = false → built.atStart = false

namespace Puts

variable {chunks others : List Chunk} {builder built second : Builder} {placing placed third : Placing}

theorem append (puts : Puts chunks builder placing built placed) (more : Puts others built placed second third)
    (inside : placing.current < placing.cells.length) :
    Puts (chunks ++ others) builder placing second third where
  emitted := by rw [more.emitted, puts.emitted, List.reverse_append, List.append_assoc]
  grown := puts.grown.append (puts.current ▸ more.grown) inside
  current := more.current.trans puts.current
  started blank := more.started (puts.started blank)

end Puts

theorem cells_put (cell : Cell) (placing : Placing) :
    (placing.put cell).cells =
      (placing.cells ++ [cell]).modify placing.current (Cell.holding [placing.cells.length]) :=
  rfl

/-- A chunk with nothing in it is put into the open cell. -/
theorem grown_put {chunk : Chunk} {cell : Cell} {placing : Placing} (same : cell.Matches chunk)
    (empty : cell.children = []) (lone : chunk.body = []) (inside : placing.current < placing.cells.length) :
    Grown placing.current [chunk] placing.cells (placing.put cell).cells := by
  apply Grown.body same empty inside
  rw [lone, cells_put]
  exact .nil

theorem inside_put (cell : Cell) {placing : Placing} (inside : placing.current < placing.cells.length) :
    (placing.put cell).current < (placing.put cell).cells.length := by
  rw [cells_put, List.length_modify, List.length_append]
  exact Nat.lt_add_right _ inside

theorem included_put (cell : Cell) (placing : Placing) :
    Cell.included (placing.put cell).cells = Cell.included placing.cells ++ Cell.included [cell] := by
  rw [cells_put, Cell.included_holding, Cell.included_append]

/-- The text that has been held back becomes a chunk on both sides. -/
theorem flushed_beside {noted : List String} {builder : Builder} {placing : Placing}
    (beside : Beside noted builder placing) :
    Puts (written builder.pending) builder placing
      { builder with pending := "", emitted := written builder.pending ++ builder.emitted } placing.flushed ∧
    Beside noted { builder with pending := "", emitted := written builder.pending ++ builder.emitted }
      placing.flushed := by
  unfold flushed written
  rw [beside.pending]
  split
  · rename_i blank
    exact ⟨⟨rfl, .nil, rfl, id⟩, { beside with pending := beside.pending.trans blank }⟩
  · have holds : (Cell.ofChunk 0 (.text builder.pending)).Matches (.text builder.pending) :=
      Cell.matches_ofChunk nofun
    refine ⟨⟨rfl, grown_put holds rfl rfl beside.inside, rfl, id⟩, ?_⟩
    refine { beside with pending := rfl, inside := inside_put _ beside.inside, named := ?_ }
    rw [included_put]
    change placing.includes = _
    simpa [Cell.included, Cell.ofChunk, Chunk.kind] using beside.named

/-- How two computations end: with the same fault, or with the same chunks put out. -/
inductive Alike (noted : List String) (builder : Builder) (placing : Placing) :
    Except StructureError (Unit × Builder) → Except StructureError (Unit × Placing) → Prop where
  | ok {chunks : List Chunk} {built : Builder} {placed : Placing} (puts : Puts chunks builder placing built placed)
      (settled : Settled chunks) (beside : Beside noted built placed) :
      Alike noted builder placing (.ok ((), built)) (.ok ((), placed))
  | error {error : StructureError} : Alike noted builder placing (.error error) (.error error)

/-- The second computation puts into a list what the first one puts into a tree. -/
def Follows (before after : List String) (build : BuildM Unit) (place : PlaceM Unit) : Prop :=
  ∀ builder placing, Beside before builder placing → Alike after builder placing (build builder) (place placing)

theorem place_bind_eq {α β : Type} (first : PlaceM α) (next : α → PlaceM β) (placing : Placing) :
    (first >>= next) placing =
      match first placing with
      | .error error => .error error
      | .ok (value, after) => next value after := by
  change (first placing >>= fun result => next result.1 result.2) = _
  cases first placing <;> rfl

namespace Follows

variable {before between after noted : List String} {build : BuildM Unit} {place : PlaceM Unit}

/-- Nothing is put out by what leaves the cells and the chunks as they are. -/
theorem still {builder built : Builder} {placing placed : Placing} (emitted : built.emitted = builder.emitted)
    (cells : placed.cells = placing.cells) (current : placed.current = placing.current)
    (started : builder.atStart = false → built.atStart = false) (beside : Beside after built placed) :
    Alike after builder placing (.ok ((), built)) (.ok ((), placed)) :=
  have puts : Puts [] builder placing built placed := ⟨emitted, cells ▸ .nil, current, started⟩
  .ok puts .nil beside

theorem pure : Follows noted noted (Pure.pure ()) (Pure.pure ()) :=
  fun _ _ beside => still rfl rfl rfl id beside

theorem throw {error : StructureError} :
    Follows before after (MonadExcept.throw error) (MonadExcept.throw error) :=
  fun _ _ _ => .error

theorem throw_bind {error : StructureError} {next : PUnit → BuildM Unit} {following : PUnit → PlaceM Unit} :
    Follows before after (MonadExcept.throw error >>= next) (MonadExcept.throw error >>= following) :=
  fun _ _ _ => .error

theorem bind {next : Unit → BuildM Unit} {following : Unit → PlaceM Unit} (first : Follows before between build place)
    (second : Follows between after (next ()) (following ())) :
    Follows before after (build >>= next) (place >>= following) := by
  intro builder placing beside
  have alike := first builder placing beside
  rw [Building.build_bind_eq, place_bind_eq]
  generalize build builder = result at alike
  generalize place placing = other at alike
  cases alike with
  | error => exact .error
  | @ok _ built placed puts settled between =>
    have further := second built placed between
    dsimp only
    generalize next () built = result at further
    generalize following () placed = other at further
    cases further with
    | error => exact .error
    | ok more also last => exact .ok (puts.append more beside.inside) (settled.append also) last

theorem forM {α : Type} {build : α → BuildM Unit} {place : α → PlaceM Unit}
    (follows : ∀ item, Follows noted noted (build item) (place item)) (items : List α) :
    Follows noted noted (items.forM build) (items.forM place) := by
  induction items with
  | nil => exact .pure
  | cons item rest step => exact .bind (follows item) step

/-- Of what both have done so far, only the number of lines is looked at, which is the same. -/
theorem looking {next : Builder → BuildM Unit} {following : Placing → PlaceM Unit}
    (follows : ∀ builder placing, placing.breaks = builder.breaks →
      Follows before after (next builder) (following placing)) :
    Follows before after (get >>= next) (get >>= following) :=
  fun builder placing beside => follows builder placing beside.breaks builder placing beside

/-! What is put out. -/

theorem push (text : String) : Follows noted noted (Builder.push text) (Placing.push text) := by
  intro builder placing beside
  unfold Builder.push Placing.push
  split
  · exact still rfl rfl rfl id beside
  · refine still rfl rfl rfl (fun _ => rfl) ?_
    exact { beside with pending := congrArg (· ++ text) beside.pending, atStart := rfl }

theorem newline (layout : Layout) : Follows noted noted (Builder.newline layout) (Placing.newline layout) := by
  intro builder placing beside
  unfold Builder.newline Placing.newline
  split
  · refine still rfl rfl rfl (fun _ => rfl) ?_
    refine { beside with pending := ?_, breaks := congrArg (· + 1) beside.breaks, atStart := rfl }
    dsimp only
    rw [beside.pending, beside.atStart]
  · exact still rfl rfl rfl id beside

/-- A new line may be begun first. -/
theorem begun (breaks : Bool) (layout : Layout) (follows : Follows before after build place) :
    Follows before after
      (if breaks then do
        Builder.newline layout
        build
      else build)
      (if breaks then do
        Placing.newline layout
        place
      else place) := by
  split
  · exact .bind (.newline layout) follows
  · exact follows

/-- The name of a template is noted before the chunk that includes it. -/
theorem noteInclude (name : String) : Follows [] [name] (Builder.noteInclude name) (Placing.noteInclude name) := by
  intro builder placing beside
  have named : placing.includes = (Cell.included placing.cells).eraseDups := by simpa using beside.named
  unfold Builder.noteInclude Placing.noteInclude
  rw [Building.modify_eq]
  change Alike _ _ _ _ (.ok ((), if placing.includes.contains name then placing else _))
  rw [beside.includes]
  split
  · rename_i known
    have mentioned : name ∈ Cell.included placing.cells := by
      simpa [← beside.includes, named] using known
    refine still rfl rfl rfl id { beside with named := ?_ }
    rw [named, List.eraseDups_append, List.removeAll]
    simp [mentioned]
  · rename_i unknown
    have unmentioned : name ∉ Cell.included placing.cells := by
      simpa [← beside.includes, named] using unknown
    refine still rfl rfl rfl id { beside with includes := rfl, named := ?_ }
    change builder.includes ++ [name] = _
    rw [← beside.includes, named, List.eraseDups_append, List.removeAll]
    simp [unmentioned, List.eraseDups_cons]

/-- A chunk that has nothing in it. A name that has been noted is that of the chunk. -/
theorem emitted {depth : Nat} {chunk : Chunk} (same : (Cell.ofChunk depth chunk).Matches chunk)
    (lone : chunk.body = []) (other : chunk.isText = false) :
    Follows (Cell.included [Cell.ofChunk depth chunk] ++ noted) noted (Builder.emit chunk)
      (Placing.leaf depth chunk) := by
  intro builder placing beside
  obtain ⟨puts, flushed⟩ := flushed_beside beside
  rw [Building.emit_eq]
  have put : Puts [chunk] { builder with pending := "", emitted := written builder.pending ++ builder.emitted }
      placing.flushed
      { builder with
        pending := "", emitted := chunk :: (written builder.pending ++ builder.emitted), atStart := false }
      { placing.flushed.put (.ofChunk depth chunk) with atStart := false } :=
    ⟨rfl, grown_put same rfl lone flushed.inside, rfl, fun _ => rfl⟩
  refine .ok (puts.append put beside.inside) (.emitted _ other (by rw [lone]; exact .nil)) ?_
  refine { flushed with atStart := rfl, inside := inside_put _ flushed.inside, named := ?_ }
  change placing.flushed.includes = (Cell.included (placing.flushed.put _).cells ++ noted).eraseDups
  rw [included_put, List.append_assoc]
  exact flushed.named

/-- A chunk that has nothing in it and includes nothing. -/
theorem leaf {depth : Nat} {chunk : Chunk} (lone : chunk.body = []) (other : chunk.isText = false)
    (plain : chunk.kind ≠ .includeTemplate) :
    Follows noted noted (Builder.emit chunk) (Placing.leaf depth chunk) := by
  have same : (Cell.ofChunk depth chunk).Matches chunk :=
    Cell.matches_ofChunk fun _ _ included => absurd (included ▸ rfl) plain
  have none : Cell.included [Cell.ofChunk depth chunk] = [] := by
    simpa [Cell.included, Cell.ofChunk] using plain
  have put : Follows (Cell.included [Cell.ofChunk depth chunk] ++ noted) noted (Builder.emit chunk)
      (Placing.leaf depth chunk) := emitted same lone other
  rwa [none] at put

end Follows

/-! Chunks with a body. -/

/-- A way to make a chunk from its body, which nothing else of the chunk depends on. -/
structure Encloses (make : List Chunk → Chunk) : Prop where
  kind : ∀ body, (make body).kind = (make []).kind
  value : ∀ body, (make body).value = (make []).value
  expr : ∀ body, (make body).expr? = (make []).expr?
  body : ∀ body, (make body).body = body
  closed : (make []).kind.isControl = true ∨ (make []).kind = .mixin

namespace Encloses

variable {make : List Chunk → Chunk}

theorem ne (encloses : Encloses make) (body : List Chunk) :
    (make body).kind ≠ .text ∧ (make body).kind ≠ .includeTemplate := by
  rw [encloses.kind]
  constructor <;>
  · intro same
    have closed := encloses.closed
    rw [same] at closed
    rcases closed with control | mixin
    · cases control
    · cases mixin

theorem matches_ofChunk (encloses : Encloses make) (depth : Nat) (body : List Chunk) :
    (Cell.ofChunk depth (make [])).Matches (make body) where
  kind := (encloses.kind body).symm
  value := (encloses.value body).symm
  expr := (encloses.expr body).symm
  depth _ _ included := absurd (included ▸ rfl) (encloses.ne body).2

end Encloses

/-- The statements that are made from their bodies alone. -/
theorem control_encloses {token : Token} {make : List Chunk → Chunk}
    (found : Compilation.control? token = some make) : Encloses make := by
  unfold Compilation.control? at found
  split at found <;> cases found
  case h_7 | h_8 =>
    cases (Compilation.loopNames token.children)[1]? <;>
      exact ⟨fun _ => rfl, fun _ => rfl, fun _ => rfl, fun _ => rfl, .inl rfl⟩
  all_goals exact ⟨fun _ => rfl, fun _ => rfl, fun _ => rfl, fun _ => rfl, .inl rfl⟩

/-- A list in which a new chunk is open. -/
def opened (cell : Cell) (placing : Placing) : Placing :=
  { placing.flushed.put cell with atStart := false, current := placing.flushed.cells.length }

theorem control_eq (layout : Layout) (head : Chunk) (body : PlaceM Unit) (placing : Placing) :
    control layout head body placing =
      match body (placing.opened (.ofChunk layout.depth head)) with
      | .error error => .error error
      | .ok (_, after) => .ok ((), { after.flushed with current := placing.flushed.current }) := by
  change (body >>= fun _ => do
    flush
    modify fun after => { after with current := placing.flushed.current })
      (placing.opened (.ofChunk layout.depth head)) = _
  rw [place_bind_eq]
  cases body (placing.opened (.ofChunk layout.depth head)) <;> rfl

/-- A chunk with its body. What is held back at the end of the body comes into the chunk. -/
theorem Follows.control {make : List Chunk → Chunk} (encloses : Encloses make) (layout : Layout)
    {build : BuildM Unit} {place : PlaceM Unit} (inner : Follows [] [] build place) :
    Follows [] [] (do Builder.emit (make (← enclosed build))) (Placing.control layout (make []) place) := by
  intro builder placing beside
  obtain ⟨puts, flushed⟩ := flushed_beside beside
  have opens : Beside [] { builder with pending := "", emitted := [], atStart := false }
      (placing.opened (.ofChunk layout.depth (make []))) := by
    refine ⟨flushed.pending, flushed.breaks, rfl, flushed.includes, ?_, ?_⟩
    · change _ < (placing.flushed.put _).cells.length
      rw [cells_put, List.length_modify, List.length_append]
      exact Nat.lt_succ_self _
    · change placing.flushed.includes = (Cell.included (placing.flushed.put _).cells ++ []).eraseDups
      rw [included_put]
      have plain := (encloses.ne []).2
      simpa [Cell.included, Cell.ofChunk, plain] using flushed.named
  have alike := inner _ _ opens
  rw [Building.emit_enclosed_eq, control_eq]
  generalize build _ = result at alike
  generalize place _ = other at alike
  cases alike with
  | error => exact .error
  | @ok chunks built placed filled settled reached =>
    obtain ⟨ends, closed⟩ := flushed_beside reached
    have body := filled.append ends opens.inside
    have whole : built.chunks = chunks ++ written built.pending := by
      simp [Builder.chunks, filled.emitted]
    have grown : Grown placing.flushed.current [make built.chunks] placing.flushed.cells placed.flushed.cells := by
      refine .body (encloses.matches_ofChunk layout.depth _) rfl flushed.inside ?_
      rw [encloses.body, whole]
      exact body.grown
    have one : Puts [make built.chunks]
        { builder with pending := "", emitted := written builder.pending ++ builder.emitted } placing.flushed
        { built with
          pending := ""
          emitted := make built.chunks :: (written builder.pending ++ builder.emitted)
          atStart := false }
        { placed.flushed with current := placing.flushed.current } :=
      ⟨rfl, grown, rfl, fun _ => rfl⟩
    have other : (make built.chunks).isText = false := by
      have text := (encloses.ne built.chunks).1
      rwa [ne_eq, ← Chunk.isText_iff, Bool.not_eq_true] at text
    have tidy : Tidy (make built.chunks).body := by
      rw [encloses.body, whole]
      exact settled.closed _
    refine .ok (puts.append one beside.inside) (.emitted _ other tidy) ?_
    refine { closed with atStart := ?_, inside := ?_ }
    · rw [closed.atStart]
      exact filled.started rfl
    · exact lt_of_lt_of_le flushed.inside grown.length_le

/-! The parts of a line. -/

section

variable (fold : Expr → Option Value)

theorem output_follows (escape : Bool) (expr : Expr) :
    Follows [] [] (Compilation.outputItem fold escape expr) (outputItem fold escape expr) := by
  unfold Compilation.outputItem outputItem
  cases fold expr with
  | none => cases escape <;> exact .leaf rfl rfl nofun
  | some value =>
    dsimp only
    split
    · exact .leaf rfl rfl nofun
    · exact .push _

theorem outputs_follow (parts : List Token) :
    Follows [] [] (Compilation.outputs fold parts) (outputs fold parts) := by
  refine .forM (fun part => ?_) parts
  cases part.expr with
  | none => exact .pure
  | some expr => exact .forM (output_follows fold _) expr.sequence

theorem statements_follow (parts : List Token) :
    Follows [] [] (Compilation.statements fold parts) (statements fold parts) := by
  refine .forM (fun part => ?_) parts
  cases part.expr with
  | none => exact .pure
  | some expr =>
    change Follows [] [] (Compilation.code fold expr) (code fold expr)
    unfold Compilation.code code
    split
    · exact .leaf rfl rfl nofun
    · exact .pure

theorem attr_follows (escape : Bool) (name : String) (value : Option Expr) :
    Follows [] [] (Compilation.attr fold escape name value) (attr fold escape name value) := by
  unfold Compilation.attr attr
  cases value with
  | none => exact .bind (.push " ") (.push name)
  | some expr =>
    dsimp only
    cases fold expr with
    | none => cases escape <;> exact .leaf rfl rfl nofun
    | some value => exact .push _

theorem attributes_follow (part : Token) :
    Follows [] [] (Compilation.attributes fold part) (attributes fold part) := by
  unfold Compilation.attributes attributes
  cases part.kind with
  | attributeList => exact .forM (fun token => attr_follows fold _ _ _) part.children
  | attributeExpr =>
    cases part.expr with
    | none => exact .pure
    | some expr => exact .leaf rfl rfl nofun
  | _ => exact .pure

end

theorem parting_follows (layout : Layout) (afterText : Bool) :
    Follows [] [] (Compilation.parting layout afterText) (parting layout afterText) := by
  unfold Compilation.parting parting
  split
  · exact .newline layout
  · split
    · exact .push _
    · exact .pure

theorem include_follows (layout : Layout) (name : String) :
    Follows [] []
      (do
        Builder.noteInclude name
        Builder.newline layout
        Builder.emit (.includeTemplate name layout.depth))
      (do
        noteInclude name
        newline layout
        leaf layout.depth (.includeTemplate name layout.depth)) := by
  have same : (Cell.ofChunk layout.depth (.includeTemplate name layout.depth)).Matches
      (.includeTemplate name layout.depth) :=
    Cell.matches_ofChunk fun _ _ included => (Chunk.includeTemplate.inj included).2
  exact .bind (.noteInclude name) (.bind (.newline layout) (.emitted same rfl rfl))

/-! Lines. -/

section

variable (fold : Expr → Option Value)

mutual

theorem block_follows (layout : Layout) (afterText : Bool) (previous : Option TokenKind) (lines : List Token) :
    Follows [] [] (Compilation.block fold layout afterText previous lines)
      (block fold layout afterText previous lines) := by
  cases lines with
  | nil =>
    unfold Compilation.block block
    exact .pure
  | cons token rest =>
    have line : Follows [] []
        (do
          Compilation.statement fold layout token
          Compilation.block fold layout (Compilation.isTextLine token) (some token.kind) rest)
        (do
          statement fold layout token
          block fold layout (Compilation.isTextLine token) (some token.kind) rest) :=
      .bind (statement_follows layout token) (block_follows layout _ _ rest)
    rw [Compilation.block_cons]
    unfold block
    cases Compilation.misplaced? previous token.kind with
    | some fault => exact .throw
    | none =>
      dsimp only
      split
      · exact .bind (parting_follows layout afterText) line
      · exact line
termination_by 2 * sizeOf lines + 1

theorem statement_follows (layout : Layout) (token : Token) :
    Follows [] [] (Compilation.statement fold layout token) (statement fold layout token) := by
  obtain ⟨kind, span, text, expr, children⟩ := token
  have controls : Follows [] []
      (match Compilation.control? ⟨kind, span, text, expr, children⟩ with
      | none => return
      | some chunk => do
        Builder.emit (chunk (← enclosed
          (Compilation.block fold layout false none (Compilation.nestedLines children)))))
      (match Compilation.control? ⟨kind, span, text, expr, children⟩ with
      | none => return
      | some chunk =>
        control layout (chunk []) (block fold layout false none (Compilation.nestedLines children))) := by
    have shorter := Compilation.sizeOf_nestedLines_le children
    cases found : Compilation.control? ⟨kind, span, text, expr, children⟩ with
    | none => exact .pure
    | some make =>
      exact .control (control_encloses found) layout
        (block_follows layout false none (Compilation.nestedLines children))
  unfold Compilation.statement statement
  cases kind with
  | line =>
    cases children with
    | nil => exact controls
    | cons data nested => exact line_follows layout data nested
  | includeTarget => exact include_follows layout (Blank.trim text)
  | doctype => exact .push _
  | mixinControl =>
    cases expr with
    | none => exact controls
    | some signature =>
      dsimp only
      cases signature.definedName? with
      | none => exact .throw
      | some name =>
        have encloses : Encloses (.mixin name signature) :=
          ⟨fun _ => rfl, fun _ => rfl, fun _ => rfl, fun _ => rfl, .inr rfl⟩
        exact .control encloses layout (block_follows layout false none children)
  | caseControl =>
    cases expr with
    | none => exact controls
    | some subject =>
      have encloses : Encloses (.caseBlock subject) :=
        ⟨fun _ => rfl, fun _ => rfl, fun _ => rfl, fun _ => rfl, .inl rfl⟩
      exact .control encloses layout (branches_follow layout children)
  | _ => exact controls
termination_by 2 * sizeOf token
decreasing_by
  all_goals
    subst_vars
    try simp only [Token.mk.sizeOf_spec, List.cons.sizeOf_spec]
    omega

theorem branches_follow (layout : Layout) (lines : List Token) :
    Follows [] [] (Compilation.branches fold layout lines) (branches fold layout lines) := by
  cases lines with
  | nil =>
    unfold Compilation.branches branches
    exact .pure
  | cons token rest =>
    have first := statement_follows layout token
    have further := branches_follow layout rest
    unfold Compilation.branches branches
    split
    · exact .bind first further
    · exact .throw_bind
termination_by 2 * sizeOf lines + 1

theorem line_follows (layout : Layout) (data : Token) (nested : List Token) :
    Follows [] [] (Compilation.line fold layout data nested) (line fold layout data nested) := by
  obtain ⟨kind, span, text, expr, parts⟩ := data
  have inner (layout : Layout) (afterText : Bool) :
      Follows [] [] (Compilation.block fold layout afterText none nested)
        (block fold layout afterText none nested) :=
    block_follows layout afterText none nested
  unfold Compilation.line line
  cases kind with
  | tagLine => exact tag_follows layout true span.start parts nested
  | textLine =>
    have texts := pieces_follow layout parts
    cases parts with
    | nil => exact .bind (.push text) (inner layout true)
    | cons => exact .bind texts (inner layout true)
  | pipedLine => exact .bind (pieces_follow layout parts) (inner layout true)
  | commentLine =>
    cases parts with
    | nil => exact .pure
    | cons mark parts =>
      dsimp only
      split
      · exact .pure
      · exact .bind (.newline layout) (.bind (.push "<!--") (.bind (pieces_follow layout parts)
          (.bind (inner { layout with pretty := false } true) (.push "-->"))))
  | dotLine => exact inner layout false
  | outputLine => exact .bind (outputs_follow fold parts) (inner layout false)
  | codeLine => exact .bind (statements_follow fold parts) (inner layout false)
  | codeBlock => exact .bind (statements_follow fold parts) (inner layout false)
  | mixinCall => exact .bind (.leaf rfl rfl nofun) (inner layout false)
  | _ => exact .pure
termination_by 2 * (sizeOf data + sizeOf nested) + 1
decreasing_by
  all_goals
    subst_vars
    try simp only [Token.mk.sizeOf_spec, List.cons.sizeOf_spec]
    omega

theorem pieces_follow (layout : Layout) (parts : List Token) :
    Follows [] [] (Compilation.pieces fold layout parts) (pieces fold layout parts) := by
  cases parts with
  | nil =>
    unfold Compilation.pieces pieces
    exact .pure
  | cons part rest =>
    have further := pieces_follow layout rest
    have one := outputs_follow fold [part]
    obtain ⟨kind, span, text, expr, inner⟩ := part
    unfold Compilation.pieces pieces
    cases kind with
    | plainText => exact .bind (.push text) further
    | tagLine => exact .bind (tag_follows layout false span.start inner []) further
    | escapedOutput => exact .bind one further
    | rawOutput => exact .bind one further
    | _ => exact further
termination_by 2 * sizeOf parts + 1
decreasing_by
  all_goals
    subst_vars
    simp only [Token.mk.sizeOf_spec, List.cons.sizeOf_spec, List.nil.sizeOf_spec]
    omega

theorem tag_follows (layout : Layout) (ownLine : Bool) (offset : Nat) (parts nested : List Token) :
    Follows [] [] (Compilation.tag fold layout ownLine offset parts nested)
      (tag fold layout ownLine offset parts nested) := by
  have shorter := Compilation.sizeOf_tail_le parts
  have positive := Compilation.sizeOf_lines_pos parts
  have other := Compilation.sizeOf_lines_pos nested
  have texts := pieces_follow layout parts.tail
  have inner := block_follows { layout with depth := layout.depth + 1 } false none nested
  unfold Compilation.tag tag
  refine .begun _ layout (.bind (.push _) (.bind (.push _) (.bind (.forM (attributes_follow fold) parts) ?_)))
  split
  · refine .bind (.push _) ?_
    split
    · exact .throw
    · exact .pure
  · refine .bind (.push _) (.bind texts (.looking fun before beginning same => ?_))
    refine .bind inner (.looking fun after ending also => ?_)
    rw [same, also]
    exact .begun _ layout (.push _)
termination_by 2 * (sizeOf parts + sizeOf nested) + 1
decreasing_by all_goals omega

end

end

/-! Whole templates. -/

/-- The cells of a template are those that there are when its last text has been put in. -/
theorem compile_eq (fold : Expr → Option Value) (pretty : Bool) (root : Token) :
    ChunkTree.compile fold pretty root =
      (block fold { pretty, depth := 0 } false none root.children start).map
        fun (_, placing) => { cells := placing.flushed.cells, includes := placing.flushed.includes } := by
  unfold ChunkTree.compile
  change ((do
    block fold { pretty, depth := 0 } false none root.children
    flush) start >>= fun result => _) = _
  rw [place_bind_eq]
  cases block fold { pretty, depth := 0 } false none root.children start <;> rfl

theorem start_beside : Beside [] .empty start :=
  ⟨rfl, rfl, rfl, rfl, Nat.one_pos, rfl⟩

/-- The tree and the list of the chunks of a template. -/
theorem compile_cases (fold : Expr → Option Value) (pretty : Bool) (root : Token) :
    (∃ error, Compilation.compile fold pretty root = .error error ∧
      ChunkTree.compile fold pretty root = .error error) ∨
    ∃ chunks tree, Compilation.compile fold pretty root = .ok (chunks, tree.includes) ∧
      ChunkTree.compile fold pretty root = .ok tree ∧ tree.Shows chunks ∧ Tidy chunks ∧ tree.Normal := by
  have alike := block_follows fold { pretty, depth := 0 } false none root.children _ _ start_beside
  rw [Building.compile_eq, compile_eq]
  generalize Compilation.block fold _ _ _ _ _ = result at alike
  generalize block fold _ _ _ _ _ = other at alike
  cases alike with
  | error => exact .inl ⟨_, rfl, rfl⟩
  | @ok chunks built placed puts settled beside =>
    obtain ⟨ends, closed⟩ := flushed_beside beside
    have whole : built.chunks = chunks ++ written built.pending := by
      simp [Builder.chunks, puts.emitted, Builder.empty]
    have tidy : Tidy built.chunks := whole ▸ settled.closed _
    obtain ⟨roots, cells, laid, all⟩ := (puts.append ends start_beside.inside).grown
    rw [← whole] at laid
    change placed.flushed.cells = Cell.block.holding roots :: cells at all
    have named : placed.flushed.includes = (Cell.included cells).eraseDups := by
      simpa [all, Cell.included, Cell.holding, Cell.block] using closed.named
    have normal := ChunkTree.normal_of_laid laid tidy named
    rw [← all] at normal
    refine .inr ⟨built.chunks, _, ?_, rfl, ⟨roots, cells, all, laid⟩, tidy, normal⟩
    exact congrArg (fun names => Except.ok (built.chunks, names)) closed.includes.symm

end Placing

/-- A source that makes a template makes a normal tree, of the same chunks and with the same included
templates; one that does not has the same fault either way. -/
theorem ChunkTree.ofSource_normal (options : TemplateOptions) (source : List Char) :
    (∀ error, Template.ofSource options source = .error error →
      ChunkTree.ofSource options source = .error error) ∧
    ∀ template, Template.ofSource options source = .ok template →
      ∃ tree, ChunkTree.ofSource options source = .ok tree ∧ tree.Shows template.chunks ∧
        Tidy template.chunks ∧ tree.includes = template.includes ∧ tree.Normal := by
  unfold Template.ofSource Template.ofSourceWith ChunkTree.ofSource
  cases Token.ofSource source with
  | error error => exact ⟨fun _ failed => by cases failed; rfl, nofun⟩
  | ok root =>
    obtain ⟨error, failed, also⟩ | ⟨chunks, tree, made, placed, laid, tidy, normal⟩ :=
      Placing.compile_cases Expr.constant? options.pretty root
    · simp only [failed, also]
      exact ⟨fun _ failed => by cases failed; rfl, nofun⟩
    · simp only [made, placed]
      refine ⟨nofun, ?_⟩
      rintro template ⟨⟩
      exact ⟨tree, rfl, laid, tidy, rfl, normal⟩

end HtmlTemplate
