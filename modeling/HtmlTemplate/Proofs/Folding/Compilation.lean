import HtmlTemplate.Proofs.Building.Steps
import HtmlTemplate.Proofs.Building.Weaving

/-! Building the chunks of a template with and without folding, side by side: what is built
with folding is what folding makes of the chunks built without. -/

namespace HtmlTemplate

namespace Folding

open Builder Building

/-- Two computations end alike, with the same fault if they fail. -/
abbrev Joint (before after : Builder → Builder → Prop) (folded plain : BuildM Unit) : Prop :=
  Woven (· = ·) before after folded plain

section

variable {fold : Expr → Option Value}

/-- One builder has what folding makes of the chunks of the other one. `ready` tells that the
last chunk is one that an alternative may go with. -/
structure Refolds (fold : Expr → Option Value) (ready : Bool) (folded plain : Builder) : Prop where
  chunks : ∀ rest, refoldAfter fold "" (plain.chunks ++ rest) =
    folded.emitted.reverse ++ refoldAfter fold folded.pending rest
  linked : ∀ rest, Linked fold ready rest → Linked fold true (plain.chunks ++ rest)
  includes : folded.includes = plain.includes

theorem Refolds.unready {ready : Bool} {folded plain : Builder}
    (refolds : Refolds fold ready folded plain) : Refolds fold false folded plain where
  chunks := refolds.chunks
  linked rest linked := by
    cases ready with
    | true => exact refolds.linked rest linked.join
    | false => exact refolds.linked rest linked
  includes := refolds.includes

theorem refolds_of_fresh {folded plain : Builder} (fresh : Fresh folded plain) :
    Refolds fold true folded plain := by
  have blank : plain.chunks = [] := by
    rw [Builder.chunks, fresh.other.emitted, fresh.other.pending]
    rfl
  refine ⟨fun rest => ?_, fun rest linked => ?_, fresh.includes⟩
  · rw [blank, fresh.begun.emitted, fresh.begun.pending]
    rfl
  · rw [blank]
    exact linked

/-- One more chunk without folding, and with folding what becomes of it. -/
theorem Refolds.extend {ready : Bool} {folded plain folded' plain' : Builder} {chunk : Chunk}
    (refolds : Refolds fold ready folded plain)
    (allowed : chunk.isAlternative = true → ready = true) (inner : LinkedIn fold chunk)
    (added : plain'.chunks = plain.chunks ++ [chunk])
    (becomes : ∀ rest, folded.emitted.reverse ++ refoldAfter fold folded.pending (chunk :: rest) =
      folded'.emitted.reverse ++ refoldAfter fold folded'.pending rest)
    (includes : folded'.includes = plain'.includes) :
    Refolds fold (absorbed? fold chunk).isNone folded' plain' where
  chunks rest := by
    rw [added, List.append_assoc]
    exact (refolds.chunks _).trans (becomes rest)
  linked rest linked := by
    rw [added, List.append_assoc]
    exact refolds.linked _ ⟨allowed, inner, linked⟩
  includes := includes

theorem emit_joint {ready : Bool} {chunk : Chunk} (apart : absorbed? fold chunk = none)
    (allowed : chunk.isAlternative = true → ready = true) (inner : LinkedIn fold chunk) :
    Joint (Refolds fold ready) (Refolds fold true) (emit (refoldChunk fold chunk)) (emit chunk) := by
  intro folded plain refolds
  rw [emit_eq, emit_eq]
  have becomes (rest : List Chunk) :
      folded.emitted.reverse ++ refoldAfter fold folded.pending (chunk :: rest) =
        (refoldChunk fold chunk :: (written folded.pending ++ folded.emitted)).reverse ++
          refoldAfter fold "" rest := by
    simp [refoldAfter, apart, reverse_written]
  have ready : (absorbed? fold chunk).isNone = true := by rw [apart]; rfl
  rw [← ready]
  exact .ok (refolds.extend allowed inner (chunks_emit plain chunk false) becomes refolds.includes)

/-- A chunk that text takes the place of. -/
theorem absorb_joint {ready : Bool} {chunk : Chunk} {text : String}
    (absorbed : absorbed? fold chunk = some text) :
    Joint (Refolds fold ready) (Refolds fold false) (push text) (emit chunk) := by
  intro folded plain refolds
  rw [push_eq, emit_eq]
  obtain ⟨allowed, inner⟩ := linked_of_absorbed fold absorbed
  have becomes (rest : List Chunk) :
      folded.emitted.reverse ++ refoldAfter fold folded.pending (chunk :: rest) =
        folded.emitted.reverse ++ refoldAfter fold (folded.pending ++ text) rest := by
    simp only [refoldAfter, absorbed]
  have unready : (absorbed? fold chunk).isNone = false := by rw [absorbed]; rfl
  rw [← unready]
  exact .ok (refolds.extend (fun alternative => absurd alternative (ne_true_of_eq_false allowed))
    inner (chunks_emit plain chunk false) becomes refolds.includes)

theorem push_joint {ready : Bool} (text : String) :
    Joint (Refolds fold ready) (Refolds fold false) (push text) (push text) := by
  intro folded plain refolds
  rw [push_eq, push_eq]
  refine .ok ⟨fun rest => ?_, fun rest linked => ?_, refolds.includes⟩
  · have alike (before : String) :
        refoldAfter fold before (written (plain.pending ++ text) ++ rest) =
          refoldAfter fold before (written plain.pending ++ (written text ++ rest)) := by
      simp only [refoldAfter_written, String.append_assoc]
    have joined := refolds.chunks (written text ++ rest)
    rw [refoldAfter_written] at joined
    rw [← joined]
    unfold Builder.chunks
    rw [List.append_assoc, List.append_assoc]
    exact refoldAfter_append_congr fold alike "" _
  · by_cases empty : text = ""
    · subst empty
      simpa only [Builder.chunks, String.append_empty] using refolds.unready.linked rest linked
    · have nonempty : plain.pending ++ text ≠ "" := by simp [empty]
      have pushed := refolds.linked (written text ++ rest)
        ((linked_written fold empty ready rest).mpr linked)
      unfold Builder.chunks at pushed ⊢
      rw [List.append_assoc] at pushed ⊢
      exact linked_append_imp fold (fun joined _ =>
        (linked_written fold nonempty joined rest).mpr linked) pushed

theorem noteInclude_joint {ready : Bool} (name : String) :
    Joint (Refolds fold ready) (Refolds fold ready) (noteInclude name) (noteInclude name) := by
  intro folded plain refolds
  unfold noteInclude
  rw [modify_eq, modify_eq, refolds.includes]
  split
  · exact .ok refolds
  · exact .ok ⟨refolds.chunks, refolds.linked, rfl⟩

theorem newline_joint {ready : Bool} {layout : Layout} (packed : layout.pretty = false) :
    Joint (Refolds fold ready) (Refolds fold ready) (newline layout) (newline layout) := by
  unfold newline
  rw [packed]
  exact .pure

/-! Bodies. -/

/-- How a chunk is made from its body, if folding the chunk folds the body. -/
structure Wraps (fold : Expr → Option Value) (make : List Chunk → Chunk) : Prop where
  apart : ∀ body, absorbed? fold (make body) = none
  folds : ∀ body, refoldChunk fold (make body) = make (refold fold body)
  linked : ∀ body, Linked fold true body → LinkedIn fold (make body)

theorem Refolds.body {ready : Bool} {folded plain : Builder} (refolds : Refolds fold ready folded plain) :
    folded.chunks = refold fold plain.chunks ∧ Linked fold true plain.chunks := by
  have chunks := refolds.chunks []
  have linked := refolds.linked [] trivial
  rw [List.append_nil] at chunks linked
  exact ⟨chunks.symm, linked⟩

theorem control_joint {ready : Bool} {make : List Chunk → Chunk} (wraps : Wraps fold make)
    (allowed : ∀ body, (make body).isAlternative = true → ready = true)
    {folded plain : BuildM Unit} (body : Joint (Refolds fold true) (Refolds fold false) folded plain) :
    Joint (Refolds fold ready) (Refolds fold true)
      (do emit (make (← enclosed folded))) (do emit (make (← enclosed plain))) := by
  apply Woven.enclosed (fun _ _ refolds => refolds.includes)
    (body.since fun _ _ fresh => refolds_of_fresh fresh)
  intro outer others refolds folded plain inner
  obtain ⟨same, linked⟩ := inner.body
  have becomes (rest : List Chunk) :
      outer.emitted.reverse ++ refoldAfter fold outer.pending (make plain.chunks :: rest) =
        (make folded.chunks :: (written outer.pending ++ outer.emitted)).reverse ++
          refoldAfter fold "" rest := by
    simp [refoldAfter, wraps.apart, wraps.folds, same, reverse_written]
  have ready : (absorbed? fold (make plain.chunks)).isNone = true := by
    rw [wraps.apart]
    rfl
  rw [← ready]
  exact refolds.extend (allowed _) (wraps.linked _ linked) (chunks_enclosed ..) becomes inner.includes

/-- Two builders within a choice by value, where all chunks are branches. -/
structure Branching (fold : Expr → Option Value) (folded plain : Builder) : Prop where
  same : folded.emitted = plain.emitted.map (refoldChunk fold)
  begun : folded.pending = ""
  other : plain.pending = ""
  branches : ∀ branch ∈ plain.emitted, branch.isBranch = true ∧ LinkedIn fold branch
  includes : folded.includes = plain.includes

theorem branching_of_fresh {folded plain : Builder} (fresh : Fresh folded plain) :
    Branching fold folded plain where
  same := by rw [fresh.begun.emitted, fresh.other.emitted, List.map_nil]
  begun := fresh.begun.pending
  other := fresh.other.pending
  branches := by
    rw [fresh.other.emitted]
    nofun
  includes := fresh.includes

theorem branch_joint {make : List Chunk → Chunk} (wraps : Wraps fold make)
    (branch : ∀ body, (make body).isBranch = true)
    {folded plain : BuildM Unit} (body : Joint (Refolds fold true) (Refolds fold false) folded plain) :
    Joint (Branching fold) (Branching fold)
      (do emit (make (← enclosed folded))) (do emit (make (← enclosed plain))) := by
  apply Woven.enclosed (fun _ _ branching => branching.includes)
    (body.since fun _ _ fresh => refolds_of_fresh fresh)
  intro outer others branching folded plain inner
  obtain ⟨same, linked⟩ := inner.body
  refine ⟨?_, rfl, rfl, ?_, inner.includes⟩
  · simp [branching.same, branching.begun, branching.other, written_empty, wraps.folds, same]
  · simp only [branching.other, written_empty, List.nil_append]
    exact List.forall_mem_cons.mpr ⟨⟨branch _, wraps.linked _ linked⟩, branching.branches⟩

theorem case_joint {ready : Bool} (subject : Expr) {folded plain : BuildM Unit}
    (body : Joint (Branching fold) (Branching fold) folded plain) :
    Joint (Refolds fold ready) (Refolds fold true)
      (do emit (.caseBlock subject (← enclosed folded)))
      (do emit (.caseBlock subject (← enclosed plain))) := by
  apply Woven.enclosed (fun _ _ refolds => refolds.includes)
    (body.since fun _ _ fresh => branching_of_fresh fresh)
  intro outer others refolds folded plain inner
  have chunks : plain.chunks = plain.emitted.reverse := by
    rw [Builder.chunks, inner.other, written_empty, List.append_nil]
  have same : folded.chunks = refoldBranches fold plain.chunks := by
    rw [Builder.chunks, inner.begun, written_empty, List.append_nil, inner.same, chunks,
      refoldBranches_eq, List.map_reverse]
  have linked : LinkedIn fold (.caseBlock subject plain.chunks) := by
    refine (linkedBranches_iff fold).mpr fun branch member => inner.branches branch ?_
    rw [chunks] at member
    exact List.mem_reverse.mp member
  have becomes (rest : List Chunk) :
      outer.emitted.reverse ++
          refoldAfter fold outer.pending (.caseBlock subject plain.chunks :: rest) =
        (.caseBlock subject folded.chunks :: (written outer.pending ++ outer.emitted)).reverse ++
          refoldAfter fold "" rest := by
    simp [refoldAfter, absorbed?, refoldChunk, same, reverse_written]
  have lone : (Chunk.caseBlock subject plain.chunks).isAlternative = true → ready = true := by
    intro alternative
    cases alternative
  exact refolds.extend lone linked (chunks_enclosed ..) becomes inner.includes

end

/-! Compiling with folding is compiling without it and folding the chunks afterwards. -/

open Compilation

/-- Nothing is known before a run. -/
def unfolded (_ : Expr) : Option Value := none

variable {fold : Expr → Option Value}

/-! The parts of a line. -/

/-- A chunk that stays a chunk. -/
theorem kept_joint {ready : Bool} {chunk other : Chunk} (apart : absorbed? fold chunk = none)
    (becomes : refoldChunk fold chunk = other) (lone : chunk.isAlternative = false)
    (inner : LinkedIn fold chunk) :
    Joint (Refolds fold ready) (Refolds fold false) (emit other) (emit chunk) := by
  rw [← becomes]
  exact (emit_joint apart (fun alternative => absurd alternative (ne_true_of_eq_false lone)) inner).weaken
    fun _ _ refolds => refolds.unready

theorem put_joint {chunk : Chunk} (lone : chunk.isLone = true) :
    Joint (Refolds fold false) (Refolds fold false) (emit chunk) (emit chunk) := by
  cases chunk with
  | attrs => exact kept_joint rfl rfl rfl trivial
  | includeTemplate => exact kept_joint rfl rfl rfl trivial
  | mixinCall => exact kept_joint rfl rfl rfl trivial
  | _ => cases lone

theorem outputItem_joint (escape : Bool) (expr : Expr) :
    Joint (Refolds fold false) (Refolds fold false) (outputItem fold escape expr)
      (outputItem unfolded escape expr) := by
  unfold outputItem
  cases known : fold expr with
  | none => exact kept_joint (by simp [absorbed?, known]) (by simp [refoldChunk, known]) rfl trivial
  | some value =>
    dsimp only
    split
    · rename_i apart
      exact kept_joint (by simpa [absorbed?, known, staysApart] using apart)
        (by simp [refoldChunk, known]) rfl trivial
    · rename_i joined
      exact absorb_joint (by simpa [absorbed?, known, staysApart] using joined)

theorem code_joint (expr : Expr) :
    Joint (Refolds fold false) (Refolds fold false) (code fold expr) (code unfolded expr) := by
  unfold code
  cases known : fold expr with
  | none =>
    have apart : absorbed? fold (.code expr) = none := by simp [absorbed?, known]
    exact kept_joint apart rfl rfl trivial
  | some value =>
    have absorbed : absorbed? fold (.code expr) = some "" := by simp [absorbed?, known]
    exact absorb_joint absorbed

theorem attr_joint (escape : Bool) (name : String) (value : Option Expr) :
    Joint (Refolds fold false) (Refolds fold false) (attr fold escape name value)
      (attr unfolded escape name value) := by
  unfold attr
  cases value with
  | none => exact .bind (push_joint " ") (push_joint name)
  | some expr =>
    dsimp only [unfolded]
    cases known : fold expr with
    | none =>
      have apart : absorbed? fold (.attr escape name expr) = none := by simp [absorbed?, known]
      exact kept_joint apart rfl rfl trivial
    | some value =>
      have absorbed : absorbed? fold (.attr escape name expr) =
          some (value.attributeMarkup name escape) := by simp [absorbed?, known]
      exact absorb_joint absorbed

theorem wraps_control {token : Token} {make : List Chunk → Chunk}
    (found : control? token = some make) : Wraps fold make := by
  unfold control? at found
  split at found <;> cases found <;> exact ⟨fun _ => rfl, fun _ => rfl, fun _ linked => linked⟩

/-- Compiling a tree with folding and without. -/
def refolding (fold : Expr → Option Value) : Loom where
  fold := fold
  other := unfolded
  layouts wide slim := slim = wide ∧ wide.pretty = false
  spans := (· = ·)
  texts := (· = ·)
  faults := (· = ·)
  fits := Token.Stated
  related ready := Refolds fold ready.isSome
  branching := Branching fold

theorem refolding_sound : (refolding fold).Sound where
  unready refolds := refolds.unready
  plain _ := rfl
  fault fault _ _ same := congrArg (fun span : Span => StructureError.mk fault span.start) same
  stated stated := stated
  inner stated := stated.inner
  depth layouts := congrArg Layout.depth layouts.1
  deeper layouts := ⟨congrArg (fun layout : Layout => { layout with depth := layout.depth + 1 }) layouts.1,
    layouts.2⟩
  packed layouts := ⟨congrArg (fun layout : Layout => { layout with pretty := false }) layouts.1, rfl⟩
  pushed same := same ▸ push_joint _
  noted := noteInclude_joint
  begun layouts := by
    obtain ⟨rfl, packed⟩ := layouts
    exact newline_joint packed
  opened layouts ownLine name := by
    obtain ⟨rfl, packed⟩ := layouts
    unfold opening breaking
    simp only [packed, Bool.and_false, Bool.false_and, Bool.false_eq_true, if_false]
    exact .pure
  nested layouts ownLine name ending _ _ body := by
    obtain ⟨rfl, packed⟩ := layouts
    unfold nesting breaking
    simp only [packed, Bool.and_false, Bool.false_and, Bool.false_eq_true, if_false]
    exact .look (.bind body (.look (push_joint _)))
  parted layouts ready afterText := by
    obtain ⟨rfl, packed⟩ := layouts
    unfold parting
    simp only [packed, Bool.false_eq_true, if_false]
    split
    · exact push_joint _
    · exact Woven.pure.weaken fun _ _ refolds => refolds.unready
  item := outputItem_joint
  coded := code_joint
  given := attr_joint
  put lone := put_joint lone
  controlled found placed body :=
    control_joint (wraps_control found) (ready_of_alternative found placed)
      (body.since fun _ _ refolds => refolds.unready)
  shared name signature _ _ _ body := by
    have wraps : Wraps fold (.mixin name signature) := ⟨fun _ => rfl, fun _ => rfl, fun _ linked => linked⟩
    exact (control_joint wraps nofun (body.since fun _ _ refolds => refolds.unready)).weaken
      fun _ _ refolds => refolds.unready
  branched found branch body :=
    branch_joint (wraps_control found) (control_branch found branch)
      (body.since fun _ _ refolds => refolds.unready)
  chosen _ _ subject _ _ _ body := (case_joint subject body).weaken fun _ _ refolds => refolds.unready

/-- A template compiled with folding is the one compiled without, folded afterwards. -/
theorem compile_refold (fold : Expr → Option Value) {root : Token}
    (stated : ∀ line ∈ root.children, line.Stated) :
    match compile unfolded false root with
    | .error error => compile fold false root = .error error
    | .ok (chunks, includes) =>
      compile fold false root = .ok (refold fold chunks, includes) ∧ Linked fold true chunks := by
  have start : Fresh Builder.empty Builder.empty := ⟨⟨rfl, rfl⟩, ⟨rfl, rfl⟩, rfl⟩
  have refolds : Refolds fold false Builder.empty Builder.empty := (refolds_of_fresh start).unready
  have layouts : (refolding fold).layouts { pretty := false, depth := 0 } { pretty := false, depth := 0 } :=
    ⟨rfl, rfl⟩
  have ends := block_woven refolding_sound layouts false none root.children
    (Token.Like.refl_all (fun _ => rfl) (fun _ => rfl) _) stated
    id _ _ refolds
  change Meets _ _ (block fold _ _ _ _ _) (block unfolded _ _ _ _ _) at ends
  rw [compile_eq, compile_eq]
  generalize block fold { pretty := false, depth := 0 } false none root.children Builder.empty = result
    at ends
  generalize block unfolded { pretty := false, depth := 0 } false none root.children Builder.empty = twin
    at ends
  cases ends with
  | ok refolds =>
    obtain ⟨same, linked⟩ := refolds.body
    simp only [Except.map, same, refolds.includes, true_and]
    exact linked
  | error same => rw [show _ = _ from same]; rfl

end Folding

end HtmlTemplate
