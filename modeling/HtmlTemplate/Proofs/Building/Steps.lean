import Mathlib.Data.List.Forall2
import HtmlTemplate.Proofs.Folding.Refolding
import HtmlTemplate.Template.Builder

/-! What building chunks does to its state, and two computations that build side by side. -/

namespace HtmlTemplate

namespace Builder

/-- The chunks of the innermost open body, with the text that is in none yet. -/
def chunks (builder : Builder) : List Chunk :=
  builder.emitted.reverse ++ Folding.written builder.pending

/-- Nothing has been built in the innermost open body. -/
structure IsBlank (builder : Builder) : Prop where
  pending : builder.pending = ""
  emitted : builder.emitted = []

end Builder

namespace Building

open Builder Folding

theorem written_empty : written "" = [] := rfl

theorem reverse_written (text : String) : (written text).reverse = written text := by
  unfold written
  split <;> rfl

/-! What building does to the state. -/

theorem build_bind_eq {α β : Type} (first : BuildM α) (next : α → BuildM β) (builder : Builder) :
    (first >>= next) builder =
      match first builder with
      | .error error => .error error
      | .ok (value, after) => next value after := by
  change (first builder >>= fun result => next result.1 result.2) = _
  cases first builder <;> rfl

theorem get_eq (builder : Builder) : (get : BuildM Builder) builder = .ok (builder, builder) := rfl

theorem modify_eq (change : Builder → Builder) (builder : Builder) :
    (modify change : BuildM Unit) builder = .ok ((), change builder) :=
  rfl

theorem push_eq (text : String) (builder : Builder) :
    push text builder = .ok ((), { builder with
      pending := builder.pending ++ text, atStart := builder.atStart && text == "" }) := by
  unfold push
  split
  · rename_i empty
    simp only [empty, String.append_empty, beq_self_eq_true, Bool.and_true]
    rfl
  · rename_i nonempty
    rw [beq_false_of_ne nonempty, Bool.and_false]
    rfl

theorem flush_eq (builder : Builder) :
    flush builder = .ok ((), { builder with
      pending := "", emitted := written builder.pending ++ builder.emitted }) := by
  unfold flush written
  rw [modify_eq]
  split
  · rename_i empty
    rw [← empty]
    rfl
  · rfl

theorem emit_eq (chunk : Chunk) (builder : Builder) :
    emit chunk builder = .ok ((), { builder with
      pending := "", emitted := chunk :: (written builder.pending ++ builder.emitted)
      atStart := false }) := by
  unfold emit
  simp only [build_bind_eq, flush_eq, modify_eq]

theorem enclosed_eq (body : BuildM Unit) (builder : Builder) :
    enclosed body builder =
      match body { builder with pending := "", emitted := [], atStart := false } with
      | .error error => .error error
      | .ok (_, after) => .ok (after.chunks, { after with
          pending := "", emitted := written builder.pending ++ builder.emitted }) := by
  unfold enclosed
  simp only [build_bind_eq, flush_eq, get_eq, modify_eq]
  cases body { builder with pending := "", emitted := [], atStart := false } with
  | error error => rfl
  | ok result =>
    simp only [List.reverse_append, reverse_written]
    rfl

theorem chunks_emit (builder : Builder) (chunk : Chunk) (atStart : Bool) :
    Builder.chunks { builder with
        pending := "", emitted := chunk :: (written builder.pending ++ builder.emitted), atStart } =
      builder.chunks ++ [chunk] := by
  simp [Builder.chunks, written_empty, reverse_written]

/-! Bodies. -/

theorem emit_enclosed_eq (make : List Chunk → Chunk) (body : BuildM Unit) (builder : Builder) :
    (do emit (make (← enclosed body))) builder =
      match body { builder with pending := "", emitted := [], atStart := false } with
      | .error error => .error error
      | .ok (_, after) => .ok ((), { after with
          pending := ""
          emitted := make after.chunks :: (written builder.pending ++ builder.emitted)
          atStart := false }) := by
  rw [build_bind_eq, enclosed_eq]
  cases body { builder with pending := "", emitted := [], atStart := false } with
  | error error => rfl
  | ok result =>
    dsimp only
    rw [emit_eq]
    rfl

/-- A chunk after its body, which has been built apart from what comes before. -/
theorem chunks_enclosed (outer inner : Builder) (make : List Chunk → Chunk) :
    Builder.chunks { inner with
        pending := ""
        emitted := make inner.chunks :: (written outer.pending ++ outer.emitted)
        atStart := false } = outer.chunks ++ [make inner.chunks] := by
  simp [Builder.chunks, written_empty, reverse_written]

/-! Two builders side by side. -/

/-- Two builders at the start of a body. -/
structure Fresh (folded plain : Builder) : Prop where
  begun : folded.IsBlank
  other : plain.IsBlank
  includes : folded.includes = plain.includes

/-- Two computations end alike: with faults that correspond, or in states that correspond. -/
inductive Meets (faults : StructureError → StructureError → Prop) (after : Builder → Builder → Prop) :
    Except StructureError (Unit × Builder) → Except StructureError (Unit × Builder) → Prop where
  | ok {builder twin : Builder} (related : after builder twin) :
      Meets faults after (.ok ((), builder)) (.ok ((), twin))
  | error {error other : StructureError} (same : faults error other) :
      Meets faults after (.error error) (.error other)

/-- Two computations go alike from states that correspond. -/
def Woven (faults : StructureError → StructureError → Prop) (before after : Builder → Builder → Prop)
    (first second : BuildM Unit) : Prop :=
  ∀ builder twin, before builder twin → Meets faults after (first builder) (second twin)

namespace Woven

variable {faults : StructureError → StructureError → Prop}
  {before between after : Builder → Builder → Prop} {first second : BuildM Unit}

theorem pure : Woven faults before before (Pure.pure ()) (Pure.pure ()) := fun _ _ related => .ok related

theorem throw {error other : StructureError} (same : faults error other) :
    Woven faults before after (MonadExcept.throw error) (MonadExcept.throw other) :=
  fun _ _ _ => .error same

theorem throw_bind {error other : StructureError} (same : faults error other)
    {next following : PUnit → BuildM Unit} :
    Woven faults before after (MonadExcept.throw error >>= next) (MonadExcept.throw other >>= following) :=
  fun _ _ _ => .error same

theorem bind {next following : Unit → BuildM Unit} (woven : Woven faults before between first second)
    (goesOn : Woven faults between after (next ()) (following ())) :
    Woven faults before after (first >>= next) (second >>= following) := by
  intro builder twin related
  have meets := woven builder twin related
  rw [build_bind_eq, build_bind_eq]
  generalize first builder = result at meets
  generalize second twin = other at meets
  cases meets with
  | ok related => exact goesOn _ _ related
  | error same => exact .error same

theorem weaken {later : Builder → Builder → Prop} (woven : Woven faults before after first second)
    (more : ∀ builder twin, after builder twin → later builder twin) :
    Woven faults before later first second := by
  intro builder twin related
  have meets := woven builder twin related
  generalize first builder = result at meets
  generalize second twin = other at meets
  cases meets with
  | ok related => exact .ok (more _ _ related)
  | error same => exact .error same

theorem since {earlier : Builder → Builder → Prop} (woven : Woven faults before after first second)
    (more : ∀ builder twin, earlier builder twin → before builder twin) :
    Woven faults earlier after first second :=
  fun builder twin related => woven builder twin (more _ _ related)

theorem looking {next following : Builder → BuildM Unit}
    (woven : ∀ builder twin, Woven faults before after (next builder) (following twin)) :
    Woven faults before after (get >>= next) (get >>= following) :=
  fun builder twin related => woven builder twin builder twin related

/-- Looking at a state changes nothing. -/
theorem look (woven : Woven faults before after first second) :
    Woven faults before after
      (do
        let _ ← get
        first)
      (do
        let _ ← get
        second) :=
  woven

theorem forM {α β : Type} {matched : α → β → Prop} {act : α → BuildM Unit} {follow : β → BuildM Unit}
    (woven : ∀ item other, matched item other → Woven faults before before (act item) (follow other))
    {items : List α} {others : List β} (alike : List.Forall₂ matched items others) :
    Woven faults before before (items.forM act) (others.forM follow) := by
  induction alike with
  | nil => exact .pure
  | cons first _ step => exact .bind (woven _ _ first) step

theorem each {α : Type} {act follow : α → BuildM Unit}
    (woven : ∀ item, Woven faults before before (act item) (follow item)) (items : List α) :
    Woven faults before before (items.forM act) (items.forM follow) := by
  induction items with
  | nil => exact .pure
  | cons item rest step => exact .bind (woven item) step

/-- The body of a chunk. -/
theorem enclosed {inner : Builder → Builder → Prop} {make : List Chunk → Chunk}
    (same : ∀ builder twin, before builder twin → builder.includes = twin.includes)
    (body : Woven faults Fresh inner first second)
    (ends : ∀ outer others, before outer others → ∀ builder twin, inner builder twin →
      after
        { builder with
          pending := ""
          emitted := make builder.chunks :: (written outer.pending ++ outer.emitted)
          atStart := false }
        { twin with
          pending := ""
          emitted := make twin.chunks :: (written others.pending ++ others.emitted)
          atStart := false }) :
    Woven faults before after (do emit (make (← Builder.enclosed first)))
      (do emit (make (← Builder.enclosed second))) := by
  intro outer others related
  have fresh : Fresh { outer with pending := "", emitted := [], atStart := false }
      { others with pending := "", emitted := [], atStart := false } :=
    ⟨⟨rfl, rfl⟩, ⟨rfl, rfl⟩, same outer others related⟩
  have inside := body _ _ fresh
  rw [emit_enclosed_eq, emit_enclosed_eq]
  generalize first { outer with pending := "", emitted := [], atStart := false } = result at inside
  generalize second { others with pending := "", emitted := [], atStart := false } = twin at inside
  cases inside with
  | ok met => exact .ok (ends _ _ related _ _ met)
  | error same => exact .error same

end Woven

end Building

end HtmlTemplate
