import HtmlTemplate.Proofs.Folding.Compilation
import HtmlTemplate.Proofs.Folding.Refolding
import HtmlTemplate.Proofs.Spacing.Runs

/-! Compiling for pretty output and for plain output, side by side. But for line breaks and tabs, the
texts that come together in the one are those that come together in the other. -/

namespace HtmlTemplate

namespace Token

mutual

/-- Whether a part of a kind is in a tree. -/
def mentions (kind : TokenKind) : Token → Bool
  | ⟨own, _, _, _, children⟩ => own == kind || mentionsIn kind children

def mentionsIn (kind : TokenKind) : List Token → Bool
  | [] => false
  | token :: rest => mentions kind token || mentionsIn kind rest

end

theorem mentionsIn_eq_any (kind : TokenKind) (tokens : List Token) :
    mentionsIn kind tokens = tokens.any (mentions kind) := by
  induction tokens with
  | nil => rfl
  | cons token rest step => rw [mentionsIn, step, List.any_cons]

theorem mentions_eq (kind : TokenKind) (token : Token) :
    token.mentions kind = (token.kind == kind || token.children.any (mentions kind)) := by
  obtain ⟨own, span, text, expr, children⟩ := token
  rw [mentions, mentionsIn_eq_any]

end Token

namespace Spacing

open Builder Building Compilation Folding

/-! Chunks without line breaks and tabs. -/

theorem squeezeAll_append (chunks more : List Chunk) :
    squeezeAll (chunks ++ more) = squeezeAll chunks ++ squeezeAll more := by
  simp only [squeezeAll, Chunk.retextAll_eq_map, List.map_append]

theorem squeezeAll_written_of_ne {text : String} (nonempty : text ≠ "") :
    squeezeAll (written text) = [.text (squeeze text)] := by
  rw [written, if_neg nonempty]
  rfl

/-- A text joins the text before it. -/
theorem refoldAfter_squeezed (before text : String) (rest : List Chunk) :
    refoldAfter unfolded before (squeezeAll (written text) ++ rest) =
      refoldAfter unfolded (before ++ squeeze text) rest := by
  by_cases empty : text = ""
  · subst empty
    rw [show squeeze "" = "" from rfl, String.append_empty]
    rfl
  · rw [squeezeAll_written_of_ne empty]
    rfl

theorem linked_squeezed {text : String} (nonempty : text ≠ "") (joined : Bool) (rest : List Chunk) :
    Linked unfolded joined (squeezeAll (written text) ++ rest) ↔ Linked unfolded false rest := by
  rw [squeezeAll_written_of_ne nonempty]
  exact ⟨fun linked => linked.2.2, fun linked => ⟨nofun, trivial, linked⟩⟩

theorem solid_append (fold : Expr → Option Value) (chunks more : List Chunk) :
    solid fold (chunks ++ more) = (solid fold chunks && solid fold more) := by
  induction chunks with
  | nil => rw [List.nil_append, solid, Bool.true_and]
  | cons chunk rest step => rw [List.cons_append, solid, solid, step, Bool.and_assoc]

theorem solid_squeezed (text : String) : solid unfolded (squeezeAll (written text)) = true := by
  unfold written
  split <;> rfl

/-! One builder. -/

/-- What has been built holds together without its line breaks and tabs. `ready` tells that the last
chunk is one that an alternative may go with. -/
structure Holds (ready : Bool) (builder : Builder) : Prop where
  linked : ∀ rest, Linked unfolded ready rest → Linked unfolded true (squeezeAll builder.chunks ++ rest)
  solid : solid unfolded (squeezeAll builder.chunks) = true

/-- A builder with more text. -/
structure Pushes (text : String) (before after : Builder) : Prop where
  pending : after.pending = before.pending ++ text
  emitted : after.emitted = before.emitted
  includes : after.includes = before.includes

theorem Holds.unready {ready : Bool} {builder : Builder} (holds : Holds ready builder) :
    Holds false builder where
  linked rest linked := by
    cases ready with
    | true => exact holds.linked rest linked.join
    | false => exact holds.linked rest linked
  solid := holds.solid

theorem Pushes.chunks {text : String} {before after : Builder} (pushes : Pushes text before after) :
    after.chunks = before.emitted.reverse ++ written (before.pending ++ text) := by
  rw [Builder.chunks, pushes.emitted, pushes.pending]

/-- More text comes after the text that is there. -/
theorem Pushes.refolded {text : String} {before after : Builder} (pushes : Pushes text before after)
    (front : String) (rest : List Chunk) :
    refoldAfter unfolded front (squeezeAll after.chunks ++ rest) =
      refoldAfter unfolded front (squeezeAll before.chunks ++ (squeezeAll (written text) ++ rest)) := by
  rw [pushes.chunks, Builder.chunks, squeezeAll_append, squeezeAll_append, List.append_assoc,
    List.append_assoc]
  apply refoldAfter_append_congr
  intro front
  rw [refoldAfter_squeezed, refoldAfter_squeezed, refoldAfter_squeezed, squeeze_append, String.append_assoc]

theorem Holds.push {ready : Bool} {text : String} {before after : Builder} (holds : Holds ready before)
    (pushes : Pushes text before after) : Holds false after where
  linked rest linked := by
    by_cases empty : text = ""
    · have same : after.chunks = before.chunks := by
        rw [pushes.chunks, empty, String.append_empty, Builder.chunks]
      rw [same]
      exact holds.unready.linked rest linked
    · have nonempty : before.pending ++ text ≠ "" := by simp [empty]
      have pushed := holds.linked (squeezeAll (written text) ++ rest)
        ((linked_squeezed empty ready rest).mpr linked)
      rw [Builder.chunks, squeezeAll_append, List.append_assoc] at pushed
      rw [pushes.chunks, squeezeAll_append, List.append_assoc]
      exact linked_append_imp unfolded (fun joined inner => (linked_squeezed nonempty joined rest).mpr linked)
        pushed
  solid := by
    have solid := holds.solid
    rw [Builder.chunks, squeezeAll_append, solid_append] at solid
    rw [pushes.chunks, squeezeAll_append, solid_append, solid_squeezed, Bool.and_true]
    exact (Bool.and_eq_true_iff.mp solid).1

theorem Holds.extend {ready : Bool} {before after : Builder} {chunk : Chunk} (holds : Holds ready before)
    (added : after.chunks = before.chunks ++ [chunk])
    (apart : absorbed? unfolded (chunk.retext squeeze) = none)
    (allowed : (chunk.retext squeeze).isAlternative = true → ready = true)
    (inner : LinkedIn unfolded (chunk.retext squeeze))
    (whole : solidChunk unfolded (chunk.retext squeeze) = true) : Holds true after where
  linked rest linked := by
    rw [added, squeezeAll_append, List.append_assoc]
    refine holds.linked _ ⟨allowed, inner, ?_⟩
    rw [apart]
    exact linked
  solid := by
    rw [added, squeezeAll_append, solid_append, holds.solid]
    change (solidChunk unfolded (chunk.retext squeeze) && true) = true
    rw [whole]
    rfl

/-! Two builders side by side. -/

/-- Two builders have built the same but for line breaks and tabs. -/
structure Even (ready : Bool) (pretty plain : Builder) : Prop where
  first : Holds ready pretty
  second : Holds ready plain
  same : ∀ front rest, refoldAfter unfolded front (squeezeAll pretty.chunks ++ rest) =
    refoldAfter unfolded front (squeezeAll plain.chunks ++ rest)
  includes : pretty.includes = plain.includes

variable {ready : Bool} {pretty plain : Builder}

theorem Even.unready (even : Even ready pretty plain) : Even false pretty plain :=
  ⟨even.first.unready, even.second.unready, even.same, even.includes⟩

theorem Even.body (even : Even ready pretty plain) :
    refold unfolded (squeezeAll pretty.chunks) = refold unfolded (squeezeAll plain.chunks) := by
  have same := even.same "" []
  rwa [List.append_nil, List.append_nil] at same

theorem Holds.body (holds : Holds ready plain) : Linked unfolded true (squeezeAll plain.chunks) := by
  have linked := holds.linked [] trivial
  rwa [List.append_nil] at linked

theorem even_of_fresh (fresh : Fresh pretty plain) : Even true pretty plain := by
  have blank {builder : Builder} (blank : builder.IsBlank) : builder.chunks = [] := by
    rw [Builder.chunks, blank.emitted, blank.pending]
    rfl
  have holds {builder : Builder} (isBlank : builder.IsBlank) : Holds true builder := by
    refine ⟨fun rest linked => ?_, ?_⟩
    · rw [blank isBlank]
      exact linked
    · rw [blank isBlank]
      rfl
  exact ⟨holds fresh.begun, holds fresh.other, fun _ _ => by rw [blank fresh.begun, blank fresh.other],
    fresh.includes⟩

theorem Even.push (even : Even ready pretty plain) {text other : String} {pretty' plain' : Builder}
    (same : squeeze text = squeeze other) (pushes : Pushes text pretty pretty')
    (others : Pushes other plain plain') : Even false pretty' plain' where
  first := even.first.push pushes
  second := even.second.push others
  same front rest := by
    rw [pushes.refolded, others.refolded, even.same]
    apply refoldAfter_append_congr
    intro front
    rw [refoldAfter_squeezed, refoldAfter_squeezed, same]
  includes := pushes.includes.trans (even.includes.trans others.includes.symm)

/-- One more chunk in each of two builders. -/
theorem Even.extend (even : Even ready pretty plain) {pretty' plain' : Builder} {chunk other : Chunk}
    (first : Holds true pretty') (second : Holds true plain')
    (added : pretty'.chunks = pretty.chunks ++ [chunk]) (more : plain'.chunks = plain.chunks ++ [other])
    (apart : absorbed? unfolded (chunk.retext squeeze) = none)
    (loose : absorbed? unfolded (other.retext squeeze) = none)
    (becomes : refoldChunk unfolded (chunk.retext squeeze) = refoldChunk unfolded (other.retext squeeze))
    (includes : pretty'.includes = plain'.includes) : Even true pretty' plain' where
  first := first
  second := second
  same front rest := by
    rw [added, more, squeezeAll_append, squeezeAll_append, List.append_assoc, List.append_assoc, even.same]
    apply refoldAfter_append_congr
    intro front
    change refoldAfter unfolded front (chunk.retext squeeze :: rest) =
      refoldAfter unfolded front (other.retext squeeze :: rest)
    simp only [refoldAfter, apart, loose, becomes]
  includes := includes

/-! What is put out on both sides. -/

/-- A computation that adds nothing but line breaks and tabs. -/
def Lays (action : BuildM Unit) : Prop :=
  ∀ builder, ∃ text after, action builder = .ok ((), after) ∧ Pushes text builder after ∧ squeeze text = ""

theorem lays_pure : Lays (pure ()) :=
  fun builder => ⟨"", builder, rfl, ⟨(String.append_empty ..).symm, rfl, rfl⟩, rfl⟩

theorem push_pushes (text : String) (builder : Builder) :
    ∃ after, push text builder = .ok ((), after) ∧ Pushes text builder after :=
  ⟨_, push_eq text builder, rfl, rfl, rfl⟩

theorem lays_push {text : String} (blank : squeeze text = "") : Lays (push text) := by
  intro builder
  obtain ⟨after, pushed, pushes⟩ := push_pushes text builder
  exact ⟨text, after, pushed, pushes, blank⟩

theorem squeeze_tabs (count : Nat) : squeeze (String.ofList (List.replicate count '\t')) = "" := by
  unfold squeeze
  rw [String.toList_ofList, List.filter_replicate_of_neg (by decide)]

theorem lays_newline (layout : Layout) : Lays (newline layout) := by
  unfold newline
  split
  · intro builder
    by_cases start : builder.atStart = true
    · refine ⟨"", _, rfl, ⟨?_, rfl, rfl⟩, rfl⟩
      simp only [start, if_true, String.append_empty]
    · refine ⟨"\n" ++ String.ofList (List.replicate layout.depth '\t'), _, rfl, ⟨?_, rfl, rfl⟩, ?_⟩
      · simp only [start, Bool.false_eq_true, if_false, String.append_assoc]
      · rw [squeeze_append, squeeze_tabs]
        rfl
  · exact lays_pure

theorem lays_opening (ownLine : Bool) (layout : Layout) (name : String) :
    Lays (opening ownLine layout name) := by
  unfold opening
  split
  · exact lays_newline layout
  · exact lays_pure

theorem lays_parting (layout : Layout) (afterText : Bool) : Lays (parting layout afterText) := by
  unfold parting
  split
  · exact lays_newline layout
  · split
    · exact lays_push (by decide +kernel)
    · exact lays_pure

theorem Lays.even {first second : BuildM Unit} (lays : Lays first) (other : Lays second) :
    Woven (· = ·) (Even ready) (Even false) first second := by
  intro pretty plain even
  obtain ⟨text, after, ran, pushes, blank⟩ := lays pretty
  obtain ⟨more, following, went, others, white⟩ := other plain
  rw [ran, went]
  exact .ok (even.push (blank.trans white.symm) pushes others)

theorem push_even (text : String) : Woven (· = ·) (Even ready) (Even false) (push text) (push text) := by
  intro pretty plain even
  obtain ⟨after, ran, pushes⟩ := push_pushes text pretty
  obtain ⟨following, went, others⟩ := push_pushes text plain
  rw [ran, went]
  exact .ok (even.push rfl pushes others)

/-- A chunk that stays as it is. -/
theorem emit_even {chunk : Chunk} (stays : chunk.retext squeeze = chunk)
    (apart : absorbed? unfolded chunk = none) (lone : chunk.isAlternative = false)
    (inner : LinkedIn unfolded chunk) (whole : solidChunk unfolded chunk = true) :
    Woven (· = ·) (Even ready) (Even false) (emit chunk) (emit chunk) := by
  intro pretty plain even
  rw [← stays] at apart lone inner whole
  have allowed : (chunk.retext squeeze).isAlternative = true → ready = true := by
    rw [lone]
    intro never
    cases never
  have holds {builder : Builder} (holds : Holds ready builder) :=
    holds.extend (chunks_emit builder chunk false) apart allowed inner whole
  rw [emit_eq, emit_eq]
  exact .ok (even.extend (holds even.first) (holds even.second) (chunks_emit pretty chunk false)
    (chunks_emit plain chunk false) apart apart rfl even.includes).unready

theorem put_even {chunk : Chunk} (lone : chunk.isLone = true) :
    Woven (· = ·) (Even false) (Even false) (emit chunk) (emit chunk) := by
  cases chunk with
  | attrs => exact emit_even rfl rfl rfl trivial rfl
  | includeTemplate => exact emit_even rfl rfl rfl trivial rfl
  | mixinCall => exact emit_even rfl rfl rfl trivial rfl
  | _ => cases lone

section

variable (fold : Expr → Option Value)

theorem item_even (escape : Bool) (expr : Expr) :
    Woven (· = ·) (Even false) (Even false) (outputItem fold escape expr) (outputItem fold escape expr) := by
  unfold outputItem
  cases fold expr with
  | none => exact emit_even rfl rfl rfl trivial rfl
  | some value =>
    dsimp only
    split
    · exact emit_even rfl rfl rfl trivial rfl
    · exact push_even _

theorem coded_even (expr : Expr) :
    Woven (· = ·) (Even false) (Even false) (code fold expr) (code fold expr) := by
  unfold code
  split
  · exact emit_even rfl rfl rfl trivial rfl
  · exact .pure

theorem given_even (escape : Bool) (name : String) (value : Option Expr) :
    Woven (· = ·) (Even false) (Even false) (attr fold escape name value) (attr fold escape name value) := by
  unfold attr
  cases value with
  | none => exact .bind (push_even " ") (push_even name)
  | some expr =>
    dsimp only
    cases fold expr with
    | none => exact emit_even rfl rfl rfl trivial rfl
    | some value => exact push_even _

end

/-- How a chunk is made from its body, if it is there with other texts in the same way. -/
structure Frames (make : List Chunk → Chunk) : Prop extends Wraps unfolded make where
  retexts : ∀ body, (make body).retext squeeze = make (squeezeAll body)
  whole : ∀ body, solidChunk unfolded (make body) = solid unfolded body

theorem frames_control {token : Token} {make : List Chunk → Chunk}
    (found : control? token = some make) : Frames make := by
  refine ⟨wraps_control found, ?_, ?_⟩
  · unfold control? at found
    split at found <;> cases found <;> exact fun _ => rfl
  · unfold control? at found
    split at found <;> cases found <;> exact fun _ => rfl

theorem frames_mixin (name : String) (signature : Expr) : Frames (.mixin name signature) :=
  ⟨⟨fun _ => rfl, fun _ => rfl, fun _ linked => linked⟩, fun _ => rfl, fun _ => rfl⟩

theorem enclosed_even {make : List Chunk → Chunk} (frames : Frames make)
    (allowed : ∀ body, (make body).isAlternative = true → ready = true) {first second : BuildM Unit}
    (body : Woven (· = ·) (Even true) (Even false) first second) :
    Woven (· = ·) (Even ready) (Even true)
      (do emit (make (← enclosed first))) (do emit (make (← enclosed second))) := by
  apply Woven.enclosed (fun _ _ even => even.includes) (body.since fun _ _ fresh => even_of_fresh fresh)
  intro outer others even pretty plain inner
  have apart (body : List Chunk) : absorbed? unfolded ((make body).retext squeeze) = none := by
    rw [frames.retexts]
    exact frames.apart _
  have holds {outer inner : Builder} (around : Holds ready outer) (body : Holds false inner) :=
    around.extend (chunks_enclosed outer inner make) (apart _)
      (by rw [frames.retexts]; exact allowed _)
      (by rw [frames.retexts]; exact frames.linked _ body.body)
      (by rw [frames.retexts, frames.whole]; exact body.solid)
  refine even.extend (holds even.first inner.first) (holds even.second inner.second)
    (chunks_enclosed outer pretty make) (chunks_enclosed others plain make) (apart _) (apart _) ?_ inner.includes
  rw [frames.retexts, frames.retexts, frames.folds, frames.folds, inner.body]

/-! Whole trees. -/

/-- A line without a choice by value in it. -/
structure Caseless (token : Token) : Prop where
  stated : token.Stated
  none : token.mentions .caseControl = false

theorem mentions_nested {token : Token} {kind : TokenKind} (none : token.mentions kind = false) :
    ∀ line ∈ token.nested, line.mentions kind = false := by
  rw [Token.mentions_eq, Bool.or_eq_false_iff, List.any_eq_false] at none
  intro line member
  apply Bool.eq_false_iff.mpr
  apply none.2
  unfold Token.nested at member
  split at member
  · exact List.mem_of_mem_tail member
  · exact member

/-- Compiling a tree for pretty output and for plain output. -/
def spacing (fold : Expr → Option Value) : Loom where
  fold := fold
  other := fold
  layouts pretty plain := plain.depth = pretty.depth
  spans := (· = ·)
  texts := (· = ·)
  faults := (· = ·)
  fits := Caseless
  related ready := Even ready.isSome
  branching _ _ := False

theorem spacing_sound (fold : Expr → Option Value) : (spacing fold).Sound where
  unready even := even.unready
  plain _ := rfl
  fault fault _ _ same := congrArg (fun span : Span => StructureError.mk fault span.start) same
  stated caseless := caseless.stated
  inner caseless line member := ⟨caseless.stated.inner line member, mentions_nested caseless.none line member⟩
  depth same := same
  deeper same := congrArg (· + 1) same
  packed same := same
  pushed same := same ▸ push_even _
  noted name pretty plain even := by
    unfold noteInclude
    rw [modify_eq, modify_eq, even.includes]
    split
    · exact .ok even
    · exact .ok ⟨⟨even.first.linked, even.first.solid⟩, ⟨even.second.linked, even.second.solid⟩, even.same, rfl⟩
  begun _ := (lays_newline _).even (lays_newline _)
  opened _ ownLine name := (lays_opening ownLine _ name).even (lays_opening ownLine _ name)
  nested _ ownLine name ending _ _ body := by
    have closes (closing : Bool) (layout : Layout) :
        Lays (if closing then newline layout else pure ()) := by
      split
      · exact lays_newline layout
      · exact lays_pure
    have ends (closing : Bool) (layout : Layout) :
        (if closing = true then (do newline layout; push ending) else push ending) =
          ((if closing = true then newline layout else pure ()) >>= fun _ => push ending) := by
      split <;> rfl
    unfold nesting
    refine .looking fun before other => .bind body (.looking fun after following => ?_)
    dsimp only
    rw [ends, ends]
    exact .bind ((closes _ _).even (closes _ _)) (push_even ending)
  parted _ _ afterText := (lays_parting _ afterText).even (lays_parting _ afterText)
  item := item_even fold
  coded := coded_even fold
  given := given_even fold
  put lone := put_even lone
  controlled found placed body :=
    enclosed_even (frames_control found) (ready_of_alternative found placed)
      (body.since fun _ _ even => even.unready)
  shared name signature _ _ _ body :=
    (enclosed_even (frames_mixin name signature) nofun (body.since fun _ _ even => even.unready)).weaken
      fun _ _ even => even.unready
  branched _ _ _ _ _ never := never.elim
  chosen {token} caseless is := by
    have none := caseless.none
    rw [Token.mentions_eq, is] at none
    cases none

/-- A tree is compiled for pretty output just when it is compiled for plain output, and to the same but
for line breaks and tabs. -/
theorem compile_even (fold : Expr → Option Value) {root : Token}
    (caseless : ∀ line ∈ root.children, Caseless line) {chunks : List Chunk} {includes : List String}
    (compiled : compile fold false root = .ok (chunks, includes)) :
    ∃ others, compile fold true root = .ok (others, includes) ∧
      refold unfolded (squeezeAll others) = refold unfolded (squeezeAll chunks) ∧
      (Linked unfolded true (squeezeAll others) ∧ solid unfolded (squeezeAll others) = true) ∧
      Linked unfolded true (squeezeAll chunks) ∧ solid unfolded (squeezeAll chunks) = true := by
  have start : Fresh Builder.empty Builder.empty := ⟨⟨rfl, rfl⟩, ⟨rfl, rfl⟩, rfl⟩
  have layouts : (spacing fold).layouts { pretty := true, depth := 0 } { pretty := false, depth := 0 } := rfl
  have ends : (spacing fold).Weaves none none (block fold _ _ _ _) (block fold _ _ _ _) :=
    block_woven (spacing_sound fold) layouts false none root.children
      (Token.Like.refl_all (fun _ => rfl) (fun _ => rfl) _) caseless
      id
  replace ends := ends _ _ (even_of_fresh start).unready
  rw [compile_eq] at compiled ⊢
  generalize block fold { pretty := true, depth := 0 } false none root.children Builder.empty = result
    at ends
  generalize block fold { pretty := false, depth := 0 } false none root.children Builder.empty = twin
    at ends compiled
  cases ends with
  | error => cases compiled
  | ok even =>
    cases compiled
    exact ⟨_, congrArg (fun includes => Except.ok (_, includes)) even.includes, even.body,
      ⟨even.first.body, even.first.solid⟩, even.second.body, even.second.solid⟩

end Spacing

end HtmlTemplate
