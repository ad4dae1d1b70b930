import HtmlTemplate.Proofs.Building.Steps
import HtmlTemplate.Proofs.Rules.Composition
import HtmlTemplate.Proofs.Tags.Reading

/-! Chunks that lead from one place in markup to another one. A text may begin or end in the middle of a
tag; the body of a chunk is a whole by itself, so that it may be run or not, or many times. -/

namespace HtmlTemplate

namespace Chunk

/-- Whether a chunk has a body. -/
def isBlock : Chunk → Bool
  | ifBlock _ _ | unlessBlock _ _ | elseIfBlock _ _ | elseBlock _ | caseBlock _ _ | whenBlock _ _
  | defaultBlock _ | eachBlock _ _ _ _ | whileBlock _ _ | mixin _ _ _ => true
  | _ => false

/-- Whether a chunk is one that stands among texts: an escaped output, code or a call. -/
def isInner : Chunk → Bool
  | output true _ | escapable _ | code _ | mixinCall _ _ => true
  | _ => false

end Chunk

namespace Tags

open CharClass Builder Building Folding

/-- What some chunks write leads from one place to another, whatever bodies are run. -/
inductive Leads : Place → List Chunk → Place → Prop where
  | nil (place : Place) : Leads place [] place
  | text {content : String} {rest : List Chunk} {before between after : Place}
      (carries : Carries content before between) (goesOn : Leads between rest after) :
      Leads before (.text content :: rest) after
  | attr {name : String} {expr : Expr} {rest : List Chunk} {opened : List (List Char)} {tag : List Char}
      {after : Place} (bare : name.toList.all isAttrWord = true) (goesOn : Leads ⟨opened, some tag⟩ rest after) :
      Leads ⟨opened, some tag⟩ (.attr true name expr :: rest) after
  | inner {chunk : Chunk} {rest : List Chunk} {opened : List (List Char)} {after : Place}
      (is : chunk.isInner = true) (goesOn : Leads ⟨opened, none⟩ rest after) :
      Leads ⟨opened, none⟩ (chunk :: rest) after
  | block {chunk : Chunk} {rest : List Chunk} {opened : List (List Char)} {after : Place}
      (is : chunk.isBlock = true) (body : Leads .start chunk.body .start)
      (goesOn : Leads ⟨opened, none⟩ rest after) : Leads ⟨opened, none⟩ (chunk :: rest) after

/-- Chunks of which everything that is opened is closed, and nothing else. -/
def Whole (chunks : List Chunk) : Prop := Leads .start chunks .start

namespace Leads

variable {before between after : Place} {chunks more : List Chunk}

theorem append (first : Leads before chunks between) (second : Leads between more after) :
    Leads before (chunks ++ more) after := by
  induction first with
  | nil => exact second
  | text carries _ step => exact .text carries (step second)
  | attr bare _ step => exact .attr bare (step second)
  | inner is _ step => exact .inner is (step second)
  | block is body _ _ step => exact .block is body (step second)

theorem split (leads : Leads before (chunks ++ more) after) :
    ∃ between, Leads before chunks between ∧ Leads between more after := by
  induction chunks generalizing before with
  | nil => exact ⟨before, .nil before, leads⟩
  | cons chunk rest step =>
    cases leads with
    | text carries goesOn =>
      obtain ⟨between, first, second⟩ := step goesOn
      exact ⟨between, .text carries first, second⟩
    | attr bare goesOn =>
      obtain ⟨between, first, second⟩ := step goesOn
      exact ⟨between, .attr bare first, second⟩
    | inner is goesOn =>
      obtain ⟨between, first, second⟩ := step goesOn
      exact ⟨between, .inner is first, second⟩
    | block is body goesOn =>
      obtain ⟨between, first, second⟩ := step goesOn
      exact ⟨between, .block is body first, second⟩

/-- More text after the text that is in no chunk yet. -/
theorem push {pending text : String} (leads : Leads before (chunks ++ written pending) between)
    (carries : Carries text between after) (moves : text = "" → between = after) :
    Leads before (chunks ++ written (pending ++ text)) after := by
  by_cases none : text = ""
  · rw [none, String.append_empty, ← moves none]
    exact leads
  · have some : pending ++ text ≠ "" := fun empty => none (String.append_eq_empty_iff.mp empty).2
    obtain ⟨middle, first, last⟩ := leads.split
    refine first.append ?_
    unfold written at last ⊢
    rw [if_neg some]
    split at last
    · rename_i empty
      cases last
      rw [empty, String.empty_append]
      exact .text carries (.nil _)
    · cases last with
      | text begun goesOn =>
        cases goesOn
        exact .text (begun.append carries) (.nil _)
      | inner is => cases is
      | block is => cases is

end Leads

/-- A computation that ends leads from one place to another one, wherever the body began that is built. -/
def Moves (before after : Place) (action : BuildM Unit) : Prop :=
  ∀ builder built, action builder = .ok ((), built) →
    ∀ start, Leads start builder.chunks before → Leads start built.chunks after

/-- It leads back to where it began, outside of tags. -/
def Balances (action : BuildM Unit) : Prop := ∀ opened, Moves ⟨opened, none⟩ ⟨opened, none⟩ action

namespace Moves

variable {before between after : Place} {action next : BuildM Unit}

theorem pure (place : Place) : Moves place place (Pure.pure ()) := by
  intro builder built ran start leads
  cases ran
  exact leads

theorem throw (error : StructureError) : Moves before after (MonadExcept.throw error) := nofun

theorem bind (first : Moves before between action) (second : Moves between after next) :
    Moves before after (do
      action
      next) := by
  intro builder built ran start leads
  rw [build_bind_eq] at ran
  cases begun : action builder with
  | error error =>
    rw [begun] at ran
    cases ran
  | ok result =>
    obtain ⟨⟨⟩, middle⟩ := result
    rw [begun] at ran
    exact second middle built ran start (first builder middle begun start leads)

theorem looking {follow : Builder → BuildM Unit} (moves : ∀ builder, Moves before after (follow builder)) :
    Moves before after (get >>= follow) :=
  fun builder built ran => moves builder builder built ran

theorem forM {α : Type} {act : α → BuildM Unit} {place : Place} (items : List α)
    (moves : ∀ item ∈ items, Moves place place (act item)) : Moves place place (items.forM act) := by
  induction items with
  | nil => exact pure place
  | cons item rest step =>
    obtain ⟨first, others⟩ := List.forall_mem_cons.mp moves
    exact first.bind (step others)

theorem push {text : String} (carries : Carries text before after) (moves : text = "" → before = after) :
    Moves before after (Builder.push text) := by
  intro builder built ran start leads
  rw [push_eq] at ran
  cases ran
  exact leads.push carries moves

/-- Two texts that make one step together. -/
theorem pushes {text more : String} (carries : Carries (text ++ more) before after)
    (moves : text ++ more = "" → before = after) :
    Moves before after (do
      Builder.push text
      Builder.push more) := by
  intro builder built ran start leads
  rw [build_bind_eq, push_eq] at ran
  dsimp only at ran
  rw [push_eq] at ran
  cases ran
  have pushed := leads.push carries moves
  rwa [← String.append_assoc] at pushed

theorem emit {chunk : Chunk} (leads : Leads before [chunk] after) : Moves before after (Builder.emit chunk) := by
  intro builder built ran start begun
  rw [emit_eq] at ran
  cases ran
  rw [chunks_emit]
  exact begun.append leads

end Moves

namespace Balances

variable {action next : BuildM Unit}

theorem pure : Balances (Pure.pure ()) := fun _ => .pure _

theorem throw (error : StructureError) : Balances (MonadExcept.throw error) := fun _ => .throw error

theorem bind (first : Balances action) (second : Balances next) :
    Balances (do
      action
      next) :=
  fun opened => (first opened).bind (second opened)

theorem forM {α : Type} {act : α → BuildM Unit} (items : List α) (balances : ∀ item ∈ items, Balances (act item)) :
    Balances (items.forM act) :=
  fun opened => .forM items fun item member => balances item member opened

/-- Text without angle brackets. -/
theorem push {text : String} (clean : isClean text.toList = true) : Balances (Builder.push text) :=
  fun _ => .push (.outside clean) fun _ => rfl

theorem newline (layout : Layout) : Balances (Builder.newline layout) := by
  unfold Builder.newline
  split
  · intro opened builder built ran start leads
    rw [modify_eq] at ran
    cases ran
    cases atStart : builder.atStart with
    | true => exact leads
    | false =>
      have tabs : isClean (List.replicate layout.depth '\t') = true :=
        List.all_eq_true.mpr fun char member => List.eq_of_mem_replicate member ▸ rfl
      have clean : isClean ("\n" ++ String.ofList (List.replicate layout.depth '\t')).toList = true := by
        rw [String.toList_append, isClean_append, String.toList_ofList, String.toList_ofList]
        exact tabs
      have pushed := leads.push (.outside clean) fun _ => rfl
      rwa [← String.append_assoc] at pushed
  · exact pure

theorem inner {chunk : Chunk} (is : chunk.isInner = true) : Balances (Builder.emit chunk) :=
  fun _ => .emit (.inner is (.nil _))

/-- A chunk with a body. -/
theorem block {make : List Chunk → Chunk} (is : ∀ body, (make body).isBlock = true ∧ (make body).body = body)
    {body : BuildM Unit} (balances : Balances body) : Balances (do emit (make (← enclosed body))) := by
  intro opened builder built ran start leads
  rw [emit_enclosed_eq] at ran
  cases bodied : body { builder with pending := "", emitted := [], atStart := false } with
  | error error =>
    rw [bodied] at ran
    cases ran
  | ok result =>
    obtain ⟨⟨⟩, inside⟩ := result
    rw [bodied] at ran
    cases ran
    have whole : Whole inside.chunks := balances [] _ _ bodied .start (.nil _)
    change Leads start (Builder.chunks { builder with
      pending := "", emitted := make inside.chunks :: (written builder.pending ++ builder.emitted)
      atStart := false }) _
    rw [chunks_emit]
    refine leads.append (.block (is _).1 ?_ (.nil _))
    rw [(is _).2]
    exact whole

end Balances

end Tags

end HtmlTemplate
