import Mathlib.Data.List.Chain
import HtmlTemplate.Proofs.Rules.Composition
import HtmlTemplate.Template.ChunkTree

/-! How the chunks of a template lie in a list. A chunk is followed by those in it, and these by the chunk
after it. So a way down the tree leads to each of them, there is no other way to it, and the places are in
the order of the template. -/

namespace HtmlTemplate

namespace Chunk

theorem kind_ne_block (chunk : Chunk) : chunk.kind ≠ .block := by
  cases chunk with
  | output escape => cases escape <;> simp [kind]
  | attr escape => cases escape <;> simp [kind]
  | eachBlock item key => cases key <;> simp [kind]
  | _ => simp [kind]

theorem isText_iff (chunk : Chunk) : chunk.isText = true ↔ chunk.kind = .text := by
  cases chunk with
  | output escape => cases escape <;> simp [kind, isText]
  | attr escape => cases escape <;> simp [kind, isText]
  | eachBlock item key => cases key <;> simp [kind, isText]
  | _ => simp [kind, isText]

/-- Only what chooses, repeats or shares has something in it. -/
theorem kind_of_body {chunk : Chunk} (inner : chunk.body ≠ []) :
    chunk.kind.isControl = true ∨ chunk.kind = .mixin := by
  cases chunk with
  | eachBlock item key => cases key <;> exact .inl rfl
  | mixin => exact .inr rfl
  | _ => first | exact .inl rfl | exact absurd rfl inner

/-- No text is empty or next to another text. -/
inductive Tidy : List Chunk → Prop where
  | intro {chunks : List Chunk} (written : ∀ chunk ∈ chunks, chunk.isText = true → chunk.value ≠ "")
      (apart : chunks.IsChain fun chunk next => ¬(chunk.isText = true ∧ next.isText = true))
      (inner : ∀ chunk ∈ chunks, Tidy chunk.body) : Tidy chunks

namespace Tidy

variable {chunks others : List Chunk}

theorem nil : Tidy [] := ⟨nofun, .nil, nofun⟩

theorem written (tidy : Tidy chunks) : ∀ chunk ∈ chunks, chunk.isText = true → chunk.value ≠ "" := by
  obtain ⟨written, -, -⟩ := tidy
  exact written

theorem apart (tidy : Tidy chunks) :
    chunks.IsChain fun chunk next => ¬(chunk.isText = true ∧ next.isText = true) := by
  obtain ⟨-, apart, -⟩ := tidy
  exact apart

theorem inner (tidy : Tidy chunks) : ∀ chunk ∈ chunks, Tidy chunk.body := by
  obtain ⟨-, -, inner⟩ := tidy
  exact inner

theorem single {chunk : Chunk} (written : chunk.isText = true → chunk.value ≠ "") (inner : Tidy chunk.body) :
    Tidy [chunk] := by
  refine ⟨?_, .singleton _, ?_⟩ <;> simpa

/-- Chunks may go on after one that is not text. -/
theorem append (tidy : Tidy chunks) (further : Tidy others)
    (last : ∀ chunk ∈ chunks.getLast?, chunk.isText = false) : Tidy (chunks ++ others) := by
  refine ⟨?_, List.isChain_append.mpr ⟨tidy.apart, further.apart, ?_⟩, ?_⟩
  · exact List.forall_mem_append.mpr ⟨tidy.written, further.written⟩
  · intro chunk member next _ both
    rw [last chunk member] at both
    exact absurd both.1 (by simp)
  · exact List.forall_mem_append.mpr ⟨tidy.inner, further.inner⟩

theorem rest {chunk : Chunk} (tidy : Tidy (chunk :: chunks)) : Tidy chunks := by
  obtain ⟨written, apart, inner⟩ := tidy
  exact ⟨(List.forall_mem_cons.mp written).2, apart.tail, (List.forall_mem_cons.mp inner).2⟩

end Tidy

end Chunk

open Chunk (Tidy)

namespace Cell

/-- A cell holds what a chunk holds. The number of tags around it is that of what is included. -/
structure Matches (cell : Cell) (chunk : Chunk) : Prop where
  kind : cell.kind = chunk.kind
  value : cell.value = chunk.value
  expr : cell.expr = chunk.expr?
  depth : ∀ name depth, chunk = .includeTemplate name depth → cell.depth = depth

/-- The kind of the cell at a place. -/
def kindAt? (cells : List Cell) (place : Nat) : Option ChunkKind := cells[place]?.map Cell.kind

/-- The place that a way down leads to. At each cell it says which of those in it is the next. -/
def placeAt? (cells : List Cell) (place : Nat) : List Nat → Option Nat
  | [] => some place
  | index :: path =>
    cells[place]?.bind fun cell => cell.children[index]?.bind fun child => placeAt? cells child path

/-- The names of the templates that are included, in order. -/
def included (cells : List Cell) : List String :=
  (cells.filter fun cell => cell.kind == .includeTemplate).map Cell.value

/-- What is true of each cell of a normal tree. -/
structure Neat (cells : List Cell) (cell : Cell) : Prop where
  written : cell.kind = .text → cell.value ≠ ""
  apart : cell.children.IsChain fun place next =>
    ¬(kindAt? cells place = some .text ∧ kindAt? cells next = some .text)
  closed : cell.children ≠ [] → cell.kind = .block ∨ cell.kind.isControl = true ∨ cell.kind = .mixin

end Cell

namespace ChunkTree

open Cell

/-- A tree in which no text is empty or could be joined with the next one. Ways begin at the template
itself; they are in order if they are as words are in a dictionary. -/
structure Normal (tree : ChunkTree) : Prop where
  /-- The template itself comes first, and is nowhere else. -/
  root : ∀ place, kindAt? tree.cells place = some .block ↔ place = 0
  inside : ∀ path place, placeAt? tree.cells 0 path = some place → place < tree.cells.length
  once : ∀ place < tree.cells.length, ∃! path, placeAt? tree.cells 0 path = some place
  ordered : ∀ path other place target, placeAt? tree.cells 0 path = some place →
    placeAt? tree.cells 0 other = some target → (path < other ↔ place < target)
  neat : ∀ cell ∈ tree.cells, cell.Neat tree.cells
  included : tree.includes = (Cell.included tree.cells).eraseDups

end ChunkTree

/-- Chunks that lie in some cells, the first of which is at the place. `roots` are the places of the
outermost ones. -/
inductive Laid : Nat → List Chunk → List Nat → List Cell → Prop where
  | nil {start : Nat} : Laid start [] [] []
  | cons {start : Nat} {chunk : Chunk} {rest : List Chunk} {roots : List Nat} {cell : Cell}
      {inner further : List Cell} (same : cell.Matches chunk)
      (body : Laid (start + 1) chunk.body cell.children inner)
      (others : Laid (start + 1 + inner.length) rest roots further) :
      Laid start (chunk :: rest) (start :: roots) (cell :: (inner ++ further))

/-- What is in the template itself are these chunks. -/
def ChunkTree.Shows (tree : ChunkTree) (chunks : List Chunk) : Prop :=
  ∃ roots cells, tree.cells = Cell.block.holding roots :: cells ∧ Laid 1 chunks roots cells

/-! Ways. -/

namespace Cell

variable {cells : List Cell}

/-- The place that a way leads to, which begins at one of some places. -/
def reached? (cells : List Cell) (places : List Nat) (index : Nat) (path : List Nat) : Option Nat :=
  places[index]?.bind fun place => placeAt? cells place path

/-- All cells from a place on and before another one are reached from some places, in order. -/
structure Covers (cells : List Cell) (places : List Nat) (start stop : Nat) : Prop where
  inside : ∀ {index path place}, reached? cells places index path = some place → start ≤ place ∧ place < stop
  found : ∀ {place}, start ≤ place → place < stop → ∃ index path, reached? cells places index path = some place
  ordered : ∀ {index path other further place target}, reached? cells places index path = some place →
    reached? cells places other further = some target → index :: path < other :: further → place < target

/-- A way begins at the first of the places and ends there, goes on from it, or begins at another one. -/
theorem reached_cons {start : Nat} {roots : List Nat} {cell : Cell} (here : cells[start]? = some cell)
    {index : Nat} {path : List Nat} {place : Nat}
    (reached : reached? cells (start :: roots) index path = some place) :
    (index = 0 ∧ path = [] ∧ place = start) ∨
    (∃ next rest, index = 0 ∧ path = next :: rest ∧ reached? cells cell.children next rest = some place) ∨
    (∃ before, index = before + 1 ∧ reached? cells roots before path = some place) := by
  cases index with
  | zero =>
    cases path with
    | nil =>
      refine .inl ⟨rfl, rfl, ?_⟩
      simpa [reached?, placeAt?] using reached.symm
    | cons next rest =>
      refine .inr (.inl ⟨next, rest, rfl, rfl, ?_⟩)
      simpa [reached?, placeAt?, here] using reached
  | succ before =>
    refine .inr (.inr ⟨before, rfl, ?_⟩)
    simpa [reached?] using reached

namespace Covers

theorem nil {start : Nat} : Covers cells [] start start where
  inside reached := by simp [reached?] at reached
  found least less := absurd less (by omega)
  ordered reached := by simp [reached?] at reached

theorem cons {start middle stop : Nat} {roots : List Nat} {cell : Cell} (here : cells[start]? = some cell)
    (inner : Covers cells cell.children (start + 1) middle) (after : start + 1 ≤ middle)
    (others : Covers cells roots middle stop) (last : middle ≤ stop) :
    Covers cells (start :: roots) start stop where
  inside reached := by
    obtain ⟨-, -, rfl⟩ | ⟨next, rest, -, -, reached⟩ | ⟨before, -, reached⟩ := reached_cons here reached
    · omega
    · have bounds := inner.inside reached
      omega
    · have bounds := others.inside reached
      omega
  found {place} least less := by
    by_cases first : place = start
    · exact ⟨0, [], by simp [reached?, placeAt?, first]⟩
    · by_cases within : place < middle
      · obtain ⟨index, path, reached⟩ := inner.found (by omega) within
        exact ⟨0, index :: path, by simpa [reached?, placeAt?, here] using reached⟩
      · obtain ⟨index, path, reached⟩ := others.found (by omega) less
        exact ⟨index + 1, path, by simpa [reached?] using reached⟩
  ordered leads also less := by
    obtain ⟨rfl, rfl, rfl⟩ | ⟨next, rest, rfl, rfl, reached⟩ | ⟨before, rfl, reached⟩ := reached_cons here leads
    · obtain ⟨rfl, rfl, rfl⟩ | ⟨second, further, rfl, rfl, target⟩ | ⟨between, rfl, target⟩ :=
        reached_cons here also
      · exact absurd less (lt_irrefl _)
      · exact (inner.inside target).1
      · have bounds := others.inside target
        omega
    · have bounds := inner.inside reached
      obtain ⟨rfl, rfl, rfl⟩ | ⟨second, further, rfl, rfl, target⟩ | ⟨between, rfl, target⟩ :=
        reached_cons here also
      · simp at less
      · exact inner.ordered reached target (by simpa using less)
      · have more := others.inside target
        omega
    · obtain ⟨rfl, rfl, rfl⟩ | ⟨second, further, rfl, rfl, target⟩ | ⟨between, rfl, target⟩ :=
        reached_cons here also
      · simp [List.cons_lt_cons_iff] at less
      · simp [List.cons_lt_cons_iff] at less
      · exact others.ordered reached target (by simpa [List.cons_lt_cons_iff] using less)

/-- No other way leads to the same place. -/
theorem unique {places : List Nat} {start stop index other place : Nat} {path further : List Nat}
    (covers : Covers cells places start stop) (reached : reached? cells places index path = some place)
    (target : reached? cells places other further = some place) : index :: path = other :: further := by
  rcases lt_trichotomy (index :: path) (other :: further) with less | same | greater
  · exact absurd (covers.ordered reached target less) (lt_irrefl place)
  · exact same
  · exact absurd (covers.ordered target reached greater) (lt_irrefl place)

end Covers

end Cell

/-! Chunks that lie in cells. -/

namespace Laid

variable {start : Nat} {chunks others : List Chunk} {roots : List Nat} {segment cells : List Cell}

theorem append {further : List Nat} {rest : List Cell} (laid : Laid start chunks roots segment)
    (more : Laid (start + segment.length) others further rest) :
    Laid start (chunks ++ others) (roots ++ further) (segment ++ rest) := by
  induction laid with
  | nil => exact more
  | @cons start chunk _ _ cell inner _ same body _ _ step =>
    rw [List.cons_append, List.cons_append, List.cons_append, List.append_assoc]
    refine .cons same body (step ?_)
    convert more using 1
    simp only [List.length_cons, List.length_append]
    omega

theorem chunks_ne_nil (laid : Laid start chunks roots segment) (nonempty : roots ≠ []) : chunks ≠ [] := by
  cases laid with
  | nil => exact absurd rfl nonempty
  | cons => simp

/-- The first cell of a part of the list, and what follows it. -/
theorem within_cons {cell : Cell} {inner further : List Cell}
    (within : cell :: (inner ++ further) <+: cells.drop start) :
    cells[start]? = some cell ∧ inner <+: cells.drop (start + 1) ∧
      further <+: cells.drop (start + 1 + inner.length) := by
  obtain ⟨after, all⟩ := within
  refine ⟨?_, ⟨further ++ after, ?_⟩, ⟨after, ?_⟩⟩
  · have first := congrArg List.head? all
    simpa using first.symm
  · rw [← List.tail_drop, ← all]
    simp
  · rw [← List.drop_drop, ← List.tail_drop, ← all]
    simp

theorem covers (laid : Laid start chunks roots segment) (within : segment <+: cells.drop start) :
    Cell.Covers cells roots start (start + segment.length) := by
  induction laid with
  | nil => exact .nil
  | @cons start _ _ _ _ inner further _ _ _ innerStep step =>
    obtain ⟨here, inside, after⟩ := within_cons within
    have all : start + (inner.length + further.length + 1) = start + 1 + inner.length + further.length := by
      omega
    rw [List.length_cons, List.length_append, all]
    exact .cons here (innerStep inside) (by omega) (step after) (by omega)

/-- At the places of the outermost chunks are cells of their kinds. -/
theorem kinds (laid : Laid start chunks roots segment) (within : segment <+: cells.drop start) :
    roots.map (Cell.kindAt? cells) = chunks.map fun chunk => some chunk.kind := by
  induction laid with
  | nil => rfl
  | cons same _ _ _ step =>
    obtain ⟨here, -, after⟩ := within_cons within
    rw [List.map_cons, List.map_cons, step after, Cell.kindAt?, here, Option.map_some, same.kind]

/-- Texts that are not next to each other lie in cells that are not. -/
theorem apart (laid : Laid start chunks roots segment) (tidy : Tidy chunks)
    (within : segment <+: cells.drop start) :
    roots.IsChain fun place next =>
      ¬(Cell.kindAt? cells place = some .text ∧ Cell.kindAt? cells next = some .text) := by
  have apart := tidy.apart
  simp only [Chunk.isText_iff] at apart
  have kinds : (roots.map (Cell.kindAt? cells)).IsChain fun kind next =>
      ¬(kind = some .text ∧ next = some .text) := by
    rw [laid.kinds within, List.isChain_map]
    simpa using apart
  exact (List.isChain_map _).mp kinds

theorem neat (laid : Laid start chunks roots segment) (tidy : Tidy chunks)
    (within : segment <+: cells.drop start) : ∀ cell ∈ segment, cell.Neat cells := by
  induction laid with
  | nil => nofun
  | @cons _ chunk _ _ cell _ _ same body _ innerStep step =>
    obtain ⟨-, inside, after⟩ := within_cons within
    have inner : Tidy chunk.body := tidy.inner chunk (List.mem_cons_self)
    refine List.forall_mem_cons.mpr ⟨⟨?_, body.apart inner inside, ?_⟩, ?_⟩
    · rw [same.kind, same.value, ← Chunk.isText_iff]
      exact tidy.written chunk (List.mem_cons_self)
    · intro nonempty
      rw [same.kind]
      exact .inr (Chunk.kind_of_body (body.chunks_ne_nil nonempty))
    · exact List.forall_mem_append.mpr ⟨innerStep inner inside, step tidy.rest after⟩

theorem kind_ne_block (laid : Laid start chunks roots segment) : ∀ cell ∈ segment, cell.kind ≠ .block := by
  induction laid with
  | nil => nofun
  | cons same _ _ innerStep step =>
    refine List.forall_mem_cons.mpr ⟨?_, List.forall_mem_append.mpr ⟨innerStep, step⟩⟩
    rw [same.kind]
    exact Chunk.kind_ne_block _

end Laid

/-- A template whose chunks lie in a list makes a normal tree. -/
theorem ChunkTree.normal_of_laid {chunks : List Chunk} {roots : List Nat} {cells : List Cell}
    {includes : List String} (laid : Laid 1 chunks roots cells) (tidy : Tidy chunks)
    (included : includes = (Cell.included cells).eraseDups) :
    ChunkTree.Normal { cells := Cell.block.holding roots :: cells, includes } := by
  have within : cells <+: (Cell.block.holding roots :: cells).drop 1 := List.prefix_rfl
  have covers : Cell.Covers (Cell.block.holding roots :: cells) [0] 0 (cells.length + 1) :=
    .cons rfl (by simpa [Cell.holding, Cell.block, Nat.add_comm] using laid.covers within) (by omega) .nil
      (by omega)
  have reached {path : List Nat} {place : Nat}
      (leads : Cell.placeAt? (Cell.block.holding roots :: cells) 0 path = some place) :
      Cell.reached? (Cell.block.holding roots :: cells) [0] 0 path = some place := leads
  have ordered {path other : List Nat} {place target : Nat}
      (leads : Cell.placeAt? (Cell.block.holding roots :: cells) 0 path = some place)
      (also : Cell.placeAt? (Cell.block.holding roots :: cells) 0 other = some target) (less : path < other) :
      place < target :=
    covers.ordered (reached leads) (reached also) (List.cons_lt_cons_iff.mpr (.inr ⟨rfl, less⟩))
  constructor
  case root =>
    intro place
    cases place with
    | zero => simp [Cell.kindAt?, Cell.block, Cell.holding]
    | succ place =>
      have other := laid.kind_ne_block
      simp only [Cell.kindAt?, List.getElem?_cons_succ, Option.map_eq_some_iff, Nat.succ_ne_zero, iff_false]
      rintro ⟨cell, here, block⟩
      exact other cell (List.mem_of_getElem? here) block
  case inside =>
    intro path place leads
    exact (covers.inside (reached leads)).2
  case once =>
    intro place less
    obtain ⟨index, path, leads⟩ := covers.found (Nat.zero_le place) less
    obtain rfl : index = 0 := by
      by_contra other
      simp [Cell.reached?, other] at leads
    refine ⟨path, leads, fun other also => ?_⟩
    exact (List.cons_eq_cons.mp (covers.unique (reached also) leads)).2
  case ordered =>
    intro path other place target leads also
    refine ⟨ordered leads also, fun less => ?_⟩
    rcases lt_trichotomy path other with before | rfl | after
    · exact before
    · rw [leads] at also
      cases also
      exact absurd less (lt_irrefl place)
    · exact absurd (ordered also leads after) (by omega)
  case neat =>
    refine List.forall_mem_cons.mpr ⟨⟨nofun, ?_, fun _ => .inl rfl⟩, laid.neat tidy within⟩
    simpa [Cell.holding, Cell.block] using laid.apart tidy within
  case included =>
    simpa [Cell.included, Cell.holding, Cell.block] using included

end HtmlTemplate
