import HtmlTemplate.Proofs.Building.Weaving
import HtmlTemplate.Proofs.Content.Authored

/-! Compiling adds to the chunks what the authored parts become, one part after the other. -/

namespace HtmlTemplate.Content

open Builder Building Compilation Token

/-- What has been built of the innermost open body, as it is met. -/
def built (builder : Builder) : List Atom := Chunk.atomsAll builder.chunks

theorem atoms_written (text : String) : Chunk.atomsAll (Folding.written text) = Atom.chars text := by
  unfold Folding.written
  split
  · rename_i empty
    rw [empty]
    rfl
  · exact List.append_nil _

theorem built_eq (builder : Builder) :
    built builder = Chunk.atomsAll builder.emitted.reverse ++ Atom.chars builder.pending := by
  rw [built, Builder.chunks, Chunk.atomsAll_append, atoms_written]

/-- A computation that ends adds something of a kind to what has been built. -/
def Puts (fits : List Atom → Prop) (action : BuildM Unit) : Prop :=
  ∀ builder after, action builder = .ok ((), after) →
    ∃ atoms, fits atoms ∧ built after = built builder ++ atoms

namespace Puts

variable {fits more all : List Atom → Prop} {action next : BuildM Unit}

theorem pure (none : fits []) : Puts fits (Pure.pure ()) := by
  intro builder after ran
  cases ran
  exact ⟨[], none, (List.append_nil _).symm⟩

theorem throw (error : StructureError) : Puts fits (MonadExcept.throw error) := nofun

theorem bind (first : Puts fits action) (second : Puts more next)
    (both : ∀ atoms others, fits atoms → more others → all (atoms ++ others)) :
    Puts all (do
      action
      next) := by
  intro builder after ran
  rw [build_bind_eq] at ran
  cases begun : action builder with
  | error error =>
    rw [begun] at ran
    cases ran
  | ok result =>
    obtain ⟨⟨⟩, between⟩ := result
    rw [begun] at ran
    obtain ⟨atoms, fit, grown⟩ := first builder between begun
    obtain ⟨others, further, later⟩ := second between after ran
    exact ⟨atoms ++ others, both _ _ fit further, by rw [later, grown, List.append_assoc]⟩

theorem weaken (puts : Puts fits action) (wider : ∀ atoms, fits atoms → more atoms) : Puts more action := by
  intro builder after ran
  obtain ⟨atoms, fit, grown⟩ := puts builder after ran
  exact ⟨atoms, wider atoms fit, grown⟩

theorem looking {follow : Builder → BuildM Unit} (puts : ∀ builder, Puts fits (follow builder)) :
    Puts fits (get >>= follow) :=
  fun builder after ran => puts builder builder after ran

/-- The same for each of some items. -/
theorem forM {α : Type} {act : α → BuildM Unit} {each : α → List Atom → Prop} (items : List α)
    (puts : ∀ item ∈ items, Puts (each item) (act item)) :
    Puts (fun atoms => ∃ parts, List.Forall₂ each items parts ∧ atoms = parts.flatten) (items.forM act) := by
  induction items with
  | nil => exact pure ⟨[], .nil, rfl⟩
  | cons item rest step =>
    obtain ⟨first, others⟩ := List.forall_mem_cons.mp puts
    refine first.bind (step others) ?_
    rintro atoms _ fit ⟨parts, fits, rfl⟩
    exact ⟨atoms :: parts, .cons fit fits, rfl⟩

end Puts

/-! Single things that are put out. -/

theorem push_puts (text : String) : Puts (· = Atom.chars text) (push text) := by
  intro builder after ran
  rw [push_eq] at ran
  cases ran
  exact ⟨_, rfl, by rw [built_eq, built_eq, Atom.chars_append, List.append_assoc]⟩

theorem emit_puts (chunk : Chunk) : Puts (· = chunk.atoms) (emit chunk) := by
  intro builder after ran
  rw [emit_eq] at ran
  cases ran
  refine ⟨_, rfl, ?_⟩
  rw [built, chunks_emit, Chunk.atomsAll_append]
  simp only [Chunk.atomsAll, List.append_nil, built]

theorem noteInclude_puts (name : String) : Puts (· = []) (noteInclude name) := by
  intro builder after ran
  unfold noteInclude at ran
  rw [modify_eq] at ran
  cases ran
  refine ⟨[], rfl, ?_⟩
  rw [List.append_nil]
  split <;> rfl

theorem newline_puts (layout : Layout) :
    Puts (fun atoms => atoms = [] ∨
      atoms = Atom.chars ("\n" ++ String.ofList (List.replicate layout.depth '\t'))) (newline layout) := by
  unfold newline
  split
  · intro builder after ran
    rw [modify_eq] at ran
    cases ran
    cases start : builder.atStart with
    | true => exact ⟨[], .inl rfl, by simp [built_eq]⟩
    | false =>
      refine ⟨_, .inr rfl, ?_⟩
      rw [built_eq, built_eq]
      simp only [Bool.false_eq_true, if_false, Atom.chars_append, List.append_assoc]
  · exact .pure (.inl rfl)

/-- A chunk with a body. -/
theorem enclosed_puts {fits : List Atom → Prop} {make : List Chunk → Chunk}
    (inner : ∀ body, (make body).atoms = Atom.body (make []) (Chunk.atomsAll body)) {body : BuildM Unit}
    (puts : Puts fits body) :
    Puts (fun atoms => ∃ inside, fits inside ∧ atoms = Atom.body (make []) inside)
      (do emit (make (← enclosed body))) := by
  intro builder after ran
  rw [emit_enclosed_eq] at ran
  cases bodied : body { builder with pending := "", emitted := [], atStart := false } with
  | error error =>
    rw [bodied] at ran
    cases ran
  | ok result =>
    obtain ⟨⟨⟩, inside⟩ := result
    rw [bodied] at ran
    cases ran
    obtain ⟨atoms, fit, grown⟩ := puts _ _ bodied
    have alone : Chunk.atomsAll inside.chunks = atoms := grown
    refine ⟨_, ⟨atoms, fit, rfl⟩, ?_⟩
    change Chunk.atomsAll (Builder.chunks { builder with
      pending := "", emitted := make inside.chunks :: (Folding.written builder.pending ++ builder.emitted)
      atStart := false }) = _
    rw [chunks_emit, Chunk.atomsAll_append, Chunk.atomsAll, inner, alone]
    simp only [Chunk.atomsAll, List.append_nil]
    rfl

/-! What authored parts become. -/

variable (fold : Expr → Option Value) (root : Token)

/-- A computation that adds what some authored parts become, and markup. -/
abbrev Adds (parts : List Token) (action : BuildM Unit) : Prop := Puts (Accounts fold root parts) action

variable {fold : Expr → Option Value} {root : Token} {token : Token} {parts others : List Token}

namespace Adds

variable {action next : BuildM Unit}

theorem pure : Adds fold root [] (Pure.pure ()) := Puts.pure .nil

theorem bind (first : Adds fold root parts action) (second : Adds fold root others next) :
    Adds fold root (parts ++ others) (do
      action
      next) :=
  Puts.bind first second fun _ _ => Accounts.append

/-- First something is put out that is not authored. -/
theorem after (second : Adds fold root parts next) (first : Adds fold root [] action) :
    Adds fold root parts (do
      action
      next) :=
  first.bind second

/-- Last something is put out that is not authored. -/
theorem before (first : Adds fold root parts action) (second : Adds fold root [] next) :
    Adds fold root parts (do
      action
      next) := by
  have both := first.bind second
  rwa [List.append_nil] at both

theorem forM {α : Type} {act : α → BuildM Unit} {gives : α → List Token} {items : List α}
    (adds : ∀ item ∈ items, Adds fold root (gives item) (act item)) :
    Adds fold root (items.flatMap gives) (items.forM act) := by
  induction items with
  | nil => exact pure
  | cons item rest step =>
    obtain ⟨first, others⟩ := List.forall_mem_cons.mp adds
    exact first.bind (step others)

/-- Computations that put out nothing authored. -/
theorem forM_quiet {α : Type} {act : α → BuildM Unit} {items : List α}
    (adds : ∀ item ∈ items, Adds fold root [] (act item)) : Adds fold root [] (items.forM act) := by
  have all : Adds fold root (items.flatMap fun _ => []) (items.forM act) := forM adds
  rwa [List.flatMap_eq_nil_iff.mpr fun _ _ => rfl] at all

end Adds

theorem push_adds {text : String} (accounts : Accounts fold root parts (Atom.chars text)) :
    Adds fold root parts (push text) :=
  (push_puts text).weaken fun _ same => same ▸ accounts

theorem emit_adds {chunk : Chunk} (accounts : Accounts fold root parts chunk.atoms) :
    Adds fold root parts (emit chunk) :=
  (emit_puts chunk).weaken fun _ same => same ▸ accounts

theorem noteInclude_adds (name : String) : Adds fold root [] (noteInclude name) :=
  (noteInclude_puts name).weaken fun _ same => same ▸ .nil

theorem newline_adds (within : root.Within token) (quiet : token.kind.isAuthored = false) (layout : Layout) :
    Adds fold root [] (newline layout) := by
  refine (newline_puts layout).weaken ?_
  rintro _ (rfl | rfl)
  · exact .nil
  · exact .marks within quiet (.lineBreak layout.depth)

/-- A chunk with a body that is made of a part and of what is in it. -/
theorem enclosed_adds {make : List Chunk → Chunk} (within : root.Within token)
    (quiet : token.kind.isAuthored = false) (opens : Marks fold token [.chunk (make [])])
    (inner : ∀ body, (make body).atoms = Atom.body (make []) (Chunk.atomsAll body)) {body : BuildM Unit}
    (adds : Adds fold root parts body) : Adds fold root parts (do emit (make (← enclosed body))) := by
  refine (enclosed_puts inner adds).weaken ?_
  rintro _ ⟨inside, accounts, rfl⟩
  have all := (Accounts.marks within quiet opens).append (accounts.append (.marks within quiet .closes))
  rwa [List.append_nil] at all

/-! The parts of a line. -/

theorem isSkipped_of_authored (authored : token.kind.isAuthored = true) : token.isSkipped = false := by
  obtain ⟨kind, span, text, expr, children⟩ := token
  cases kind <;> first | rfl | cases authored

theorem kept_leaf (authored : token.kind.isAuthored = true) (leaf : token.children = []) :
    token.kept = [token] := by
  rw [kept, gather_eq, isSkipped_of_authored authored, authored, leaf]
  rfl

theorem outputItem_puts (escape : Bool) (expr : Expr) :
    Puts (Printed fold escape expr) (outputItem fold escape expr) := by
  unfold outputItem
  cases known : fold expr with
  | none => exact (emit_puts _).weaken fun _ same => same ▸ .output known
  | some value =>
    dsimp only
    split
    · rename_i differs
      obtain ⟨escapes, other⟩ := Bool.and_eq_true_iff.mp differs
      exact (emit_puts _).weaken fun _ same => same ▸ .escapable known escapes (bne_iff_ne.mp other)
    · rename_i same
      refine (push_puts _).weaken ?_
      rintro _ rfl
      exact .text known fun escapes => by simpa [escapes] using same

theorem output_adds (within : root.Within token) (output : IsOutput token) :
    Adds fold root token.kept
      ((token.expr).forM (Compilation.output fold (token.kind == .escapedOutput))) := by
  obtain ⟨expr, states⟩ := Option.isSome_iff_exists.mp output.states
  have authored : token.kind.isAuthored = true := by rcases output.is with is | is <;> rw [is] <;> rfl
  rw [states, kept_leaf authored output.leaf]
  refine (Puts.forM expr.sequence fun item _ => outputItem_puts _ item).weaken ?_
  rintro _ ⟨atoms, each, rfl⟩
  exact .becomes within authored (.output output.is states each)

theorem outputs_adds (within : ∀ part ∈ parts, root.Within part)
    (outputs : ∀ part ∈ parts, IsOutput part) :
    Adds fold root (gatherAll isSkipped parts) (Compilation.outputs fold parts) := by
  rw [gatherAll_eq]
  exact .forM fun part member => output_adds (within part member) (outputs part member)

theorem statements_adds (within : ∀ part ∈ parts, root.Within part) (codes : ∀ part ∈ parts, IsCode part) :
    Adds fold root (gatherAll isSkipped parts) (statements fold parts) := by
  rw [gatherAll_eq]
  refine .forM fun part member => ?_
  have code := codes part member
  have authored : part.kind.isAuthored = true := by rw [code.is]; rfl
  obtain ⟨expr, states⟩ := Option.isSome_iff_exists.mp code.states
  change Adds fold root part.kept _
  rw [kept_leaf authored code.leaf, states]
  change Adds fold root [part] (Compilation.code fold expr)
  unfold Compilation.code
  cases known : fold expr with
  | none => exact emit_adds (.becomes (within part member) authored (.code code.is states known))
  | some value =>
    exact Puts.pure (.becomes (within part member) authored (.folded code.is states known))

theorem pair_adds (within : root.Within token) (pair : IsPair token) :
    Adds fold root [] (Compilation.pair fold token) := by
  have quiet : token.kind.isAuthored = false := by rcases pair.is with is | is <;> rw [is] <;> rfl
  change Adds fold root [] (attr fold (token.kind == .escapedPair) (pairName token) _)
  unfold attr
  cases states : token.children[1]? >>= Token.expr with
  | none =>
    refine Puts.bind (push_puts " ") (push_puts (pairName token)) ?_
    rintro _ _ rfl rfl
    rw [← Atom.chars_append]
    exact .marks within quiet (.attribute pair.is states)
  | some expr =>
    dsimp only
    cases known : fold expr with
    | none => exact emit_adds (.marks within quiet (.attributeLeft pair.is states known))
    | some value => exact push_adds (.marks within quiet (.attributeKnown pair.is states known))

theorem attributes_adds (within : root.Within token) (inline : Token.Inline token) :
    Adds fold root [] (attributes fold token) := by
  unfold attributes
  split
  · rename_i is
    cases inline with
    | attributes _ pairs =>
      exact .forM_quiet fun pair member => pair_adds (within.part member) (pairs pair member)
    | text other => cases is.symm.trans other
    | output output => rcases output.is with other | other <;> cases is.symm.trans other
    | silent _ list => exact absurd is list
    | tag other => cases is.symm.trans other
  · rename_i is
    cases states : token.expr with
    | none => exact .pure
    | some expr =>
      have quiet : token.kind.isAuthored = false := by rw [is]; rfl
      exact emit_adds (.marks within quiet (.attributes is states))
  · exact .pure

/-! Lines. -/

/-- A part that is looked at keeps what its parts keep. -/
theorem kept_eq (quiet : token.kind.isAuthored = false) (looked : token.isSkipped = false) :
    token.kept = gatherAll isSkipped token.children := by
  rw [kept, gather_eq, looked, quiet]
  rfl

theorem Silent.kept (silent : Silent token) : token.kept = [] :=
  Silent.gather (fun part is => by simp [isSkipped, isHidden, is]) silent

theorem parts_of_tag (is : token.kind = .tagLine) (inline : Token.Inline token) :
    ∃ name parts, token.children = name :: parts ∧ Silent name ∧
      (∀ part ∈ name :: parts, Token.Inline part) ∧ name.text.toList.all CharClass.isTagWord = true := by
  cases inline with
  | text other => cases is.symm.trans other
  | output output => rcases output.is with other | other <;> cases is.symm.trans other
  | attributes other => cases is.symm.trans other
  | silent tag => exact absurd is tag
  | tag _ all named inner word => exact ⟨_, _, all, named, inner, word⟩

/-- Text goes on after a part that nothing is put out for. -/
theorem pieces_quiet (fold : Expr → Option Value) (layout : Layout) {part : Token}
    (quiet : part.kind.isAuthored = false) (tag : part.kind ≠ .tagLine) (rest : List Token) :
    pieces fold layout (part :: rest) = pieces fold layout rest := by
  obtain ⟨kind, span, text, expr, children⟩ := part
  rw [pieces.eq_def]
  cases kind with
  | tagLine => exact absurd rfl tag
  | plainText | escapedOutput | rawOutput => cases quiet
  | _ => rfl

theorem pieces_silent (fold : Expr → Option Value) (layout : Layout) {part : Token} (silent : Silent part)
    (tag : part.kind ≠ .tagLine) (rest : List Token) :
    pieces fold layout (part :: rest) = pieces fold layout rest := by
  refine pieces_quiet fold layout ?_ tag rest
  cases silent with
  | name is => rw [is]; rfl
  | other quiet => exact quiet

/-- The variables of a loop keep nothing. -/
theorem kept_nestedLines (formed : ∀ line ∈ parts, Formed line) :
    gatherAll isSkipped (nestedLines parts) = gatherAll isSkipped parts := by
  induction parts with
  | nil => rfl
  | cons part rest step =>
    obtain ⟨first, others⟩ := List.forall_mem_cons.mp formed
    unfold nestedLines at step ⊢
    rw [List.dropWhile_cons]
    split
    · rename_i is
      have is : part.kind = .eachVariable := beq_iff_eq.mp is
      have quiet : part.kind.isAuthored = false := by rw [is]; rfl
      have none : part.kept = [] := by
        cases first with
        | markup other => cases is.symm.trans other
        | statement asks =>
          rw [is] at asks
          cases asks
        | named _ leaf => exact Silent.kept (.other quiet (leaf ▸ List.forall_mem_nil _))
      change _ = part.kept ++ _
      rw [none, List.nil_append, step others]
    · rfl

theorem atoms_control {make : List Chunk → Chunk} (found : control? token = some make) (body : List Chunk) :
    (make body).atoms = Atom.body (make []) (Chunk.atomsAll body) := by
  unfold control? at found
  split at found <;> cases found <;> rfl

theorem looked_of_control {make : List Chunk → Chunk} (found : control? token = some make) :
    token.kind.isAuthored = false ∧ token.isSkipped = false := by
  obtain ⟨kind, span, text, expr, children⟩ := token
  cases kind <;> first | exact ⟨rfl, rfl⟩ | cases found

/-- A line of markup keeps what it consists of and what is nested in it, unless it is hidden. -/
theorem kept_line (span : Span) (text : String) (expr : Option Expr) (data : Token) (lines : List Token) :
    (⟨.line, span, text, expr, data :: lines⟩ : Token).kept =
      if data.hides then [] else data.kept ++ gatherAll isSkipped lines := by
  have looked : isSkipped ⟨.line, span, text, expr, data :: lines⟩ = data.hides := Bool.or_false _
  rw [kept, gather_eq, looked]
  rfl

theorem parting_adds (within : root.Within token) (quiet : token.kind.isAuthored = false) (layout : Layout)
    (afterText : Bool) : Adds fold root [] (parting layout afterText) := by
  unfold parting
  split
  · exact newline_adds within quiet layout
  · split
    · exact push_adds (.marks within quiet (.lineBreak 0))
    · exact .pure

theorem nesting_adds (within : root.Within token) (quiet : token.kind.isAuthored = false) (breaks : Bool)
    (layout : Layout) {body : BuildM Unit} {ending : String} (adds : Adds fold root parts body)
    (ends : Marks fold token (Atom.chars ending)) :
    Adds fold root parts (nesting breaks layout body ending) := by
  have ending : Adds fold root [] (push ending) := push_adds (.marks within quiet ends)
  refine Puts.looking fun before => adds.before (Puts.looking fun after => ?_)
  split
  · exact ending.after (newline_adds within quiet layout)
  · exact ending

theorem sizeOf_children_lt (token : Token) : sizeOf token.children < sizeOf token := by
  obtain ⟨kind, span, text, expr, children⟩ := token
  simp only [Token.mk.sizeOf_spec]
  omega

theorem forall_within {parts : List Token} (within : root.Within token) (all : token.children = parts) :
    ∀ part ∈ parts, root.Within part :=
  fun _ member => within.part (all ▸ member)

mutual

theorem block_adds (layout : Layout) (afterText : Bool) (previous : Option TokenKind) (lines : List Token)
    (within : ∀ line ∈ lines, root.Within line) (formed : ∀ line ∈ lines, Formed line) :
    Adds fold root (gatherAll isSkipped lines) (block fold layout afterText previous lines) := by
  cases lines with
  | nil =>
    rw [block_nil]
    exact .pure
  | cons token rest =>
    obtain ⟨inside, further⟩ := List.forall_mem_cons.mp within
    obtain ⟨first, others⟩ := List.forall_mem_cons.mp formed
    rw [block_cons]
    cases misplaced? previous token.kind with
    | some fault => exact .throw _
    | none =>
      have line : Adds fold root (gatherAll isSkipped (token :: rest)) (do
          statement fold layout token
          block fold layout (isTextLine token) (some token.kind) rest) :=
        (statement_adds layout token inside first).bind
          (block_adds layout (isTextLine token) (some token.kind) rest further others)
      dsimp only
      split
      · rename_i text
        have quiet : token.kind.isAuthored = false := by rw [kind_of_isTextLine text]; rfl
        exact line.after (parting_adds inside quiet layout afterText)
      · exact line
termination_by 2 * sizeOf lines + 1
decreasing_by
  all_goals
    subst_vars
    rw [List.cons.sizeOf_spec]
    omega

theorem controlling_adds (layout : Layout) (token : Token) (within : root.Within token)
    {make : List Chunk → Chunk} (found : control? token = some make)
    (formed : ∀ line ∈ token.children, Formed line) :
    Adds fold root token.kept (controlling fold layout token) := by
  have shorter := sizeOf_nestedLines_lt token
  have some : nestedLines token.children ⊆ token.children := (List.dropWhile_suffix _).subset
  obtain ⟨quiet, looked⟩ := looked_of_control found
  unfold controlling
  rw [found, kept_eq quiet looked, ← kept_nestedLines formed]
  exact enclosed_adds within quiet (.opens found) (atoms_control found)
    (block_adds layout false none _ (fun line member => within.part (some member))
      fun line member => formed line (some member))
termination_by 2 * sizeOf token
decreasing_by all_goals omega

theorem statement_adds (layout : Layout) (token : Token) (within : root.Within token)
    (formed : Formed token) : Adds fold root token.kept (statement fold layout token) := by
  have smaller := sizeOf_children_lt token
  cases formed with
  | @markup _ data lines is all shape nested =>
    have size := congrArg sizeOf all
    obtain ⟨first, others⟩ := List.forall_mem_cons.mp (forall_within within all)
    have line := line_adds layout data first shape lines others nested
    obtain ⟨kind, span, text, expr, children⟩ := token
    dsimp only at is all
    subst is all
    unfold statement
    rw [kept_line]
    exact line
  | statement asks nested =>
    have inner := forall_within within rfl
    have controls {make : List Chunk → Chunk} (found : control? token = some make) :=
      controlling_adds layout token within found nested
    have lines := block_adds layout false none token.children inner nested
    have cases := branches_adds layout token.children inner nested
    obtain ⟨kind, span, text, expr, children⟩ := token
    unfold statement
    cases kind with
    | includeTarget =>
      exact .after (.after (emit_adds (.marks within rfl (.includes rfl _))) (newline_adds within rfl layout))
        (noteInclude_adds _)
    | doctype => exact push_adds (.marks within rfl (.doctype rfl))
    | mixinControl =>
      cases expr with
      | none => cases asks
      | some signature =>
        dsimp only
        cases named : signature.definedName? with
        | none => exact .throw _
        | some name => exact enclosed_adds within rfl (.shares rfl rfl named) (fun _ => rfl) lines
    | caseControl =>
      cases expr with
      | none => cases asks
      | some subject => exact enclosed_adds within rfl (.chooses rfl rfl) (fun _ => rfl) cases
    | _ =>
      cases expr with
      | none => first | exact controls rfl | cases asks
      | some expr => first | exact controls rfl | cases asks
  | named is leaf =>
    obtain ⟨kind, span, text, expr, children⟩ := token
    dsimp only at is leaf
    subst is leaf
    unfold statement
    exact .pure
termination_by 2 * sizeOf token + 1
decreasing_by
  all_goals
    try simp only [List.cons.sizeOf_spec] at size
    omega

theorem branches_adds (layout : Layout) (lines : List Token) (within : ∀ line ∈ lines, root.Within line)
    (formed : ∀ line ∈ lines, Formed line) :
    Adds fold root (gatherAll isSkipped lines) (branches fold layout lines) := by
  cases lines with
  | nil =>
    unfold branches
    exact .pure
  | cons token rest =>
    obtain ⟨inside, further⟩ := List.forall_mem_cons.mp within
    obtain ⟨first, others⟩ := List.forall_mem_cons.mp formed
    unfold branches
    split
    · exact (statement_adds layout token inside first).bind (branches_adds layout rest further others)
    · exact nofun
termination_by 2 * sizeOf lines + 1
decreasing_by
  all_goals
    subst_vars
    rw [List.cons.sizeOf_spec]
    omega

theorem line_adds (layout : Layout) (data : Token) (within : root.Within data) (shape : Data data)
    (nested : List Token) (inside : ∀ line ∈ nested, root.Within line) (formed : ∀ line ∈ nested, Formed line) :
    Adds fold root (if data.hides then [] else data.kept ++ gatherAll isSkipped nested)
      (line fold layout data nested) := by
  have smaller := sizeOf_children_lt data
  have inner (layout : Layout) (afterText : Bool) := block_adds layout afterText none nested inside formed
  have parts := forall_within within rfl
  cases shape with
  | tag is inline =>
    have tag := tag_adds layout true data.span.start data within is inline nested inside formed
    obtain ⟨kind, span, text, expr, children⟩ := data
    dsimp only at is
    subst is
    unfold line
    exact tag
  | text is inline =>
    have texts := pieces_adds layout data.children parts inline
    obtain ⟨kind, span, text, expr, children⟩ := data
    dsimp only at is
    obtain rfl | rfl := is
    · unfold line
      cases children with
      | nil => exact .after (inner layout true) (push_adds (.marks within rfl (.raw rfl rfl)))
      | cons => exact .bind texts (inner layout true)
    · unfold line
      exact .bind texts (inner layout true)
  | @comment mark pieces is all marked inline =>
    have size := congrArg sizeOf all
    obtain ⟨-, others⟩ := List.forall_mem_cons.mp (forall_within within all)
    have texts := pieces_adds layout pieces others inline
    obtain ⟨kind, span, text, expr, children⟩ := data
    dsimp only at is all
    subst is all
    have hides : hides ⟨.commentLine, span, text, expr, mark :: pieces⟩ = (mark.kind == .templateComment) := rfl
    have keeps : kept ⟨.commentLine, span, text, expr, mark :: pieces⟩ = gatherAll isSkipped pieces := by
      rw [kept_eq rfl rfl, gatherAll, show mark.gather isSkipped = [] from Silent.kept marked,
        List.nil_append]
    unfold line
    rw [hides, keeps]
    split
    · rename_i hidden
      rw [if_pos (beq_iff_eq.mp hidden)]
      exact .pure
    · rename_i shown
      rw [if_neg (mt beq_iff_eq.mpr shown)]
      have ended : Adds fold root _ _ := (inner { layout with pretty := false } true).before
        (push_adds (.marks within rfl (.commentEnd rfl)))
      exact .after (.after (texts.bind ended) (push_adds (.marks within rfl (.commentStart rfl))))
        (newline_adds within rfl layout)
  | output is outputs =>
    have puts : Adds fold root _ _ := outputs_adds parts outputs
    obtain ⟨kind, span, text, expr, children⟩ := data
    dsimp only at is
    subst is
    unfold line
    exact .bind puts (inner layout false)
  | code is codes =>
    have puts : Adds fold root _ _ := statements_adds parts codes
    obtain ⟨kind, span, text, expr, children⟩ := data
    dsimp only at is
    obtain rfl | rfl := is
    · unfold line
      exact .bind puts (inner layout false)
    · unfold line
      exact .bind puts (inner layout false)
  | silent is none =>
    have keeps := Silent.kept none
    obtain ⟨kind, span, text, expr, children⟩ := data
    dsimp only at is
    obtain rfl | rfl := is
    · unfold line
      rw [keeps]
      exact inner layout false
    · unfold line
      rw [keeps]
      exact .after (inner layout false) (emit_adds (.marks within rfl (.call rfl)))
termination_by 2 * (sizeOf data + sizeOf nested) + 1
decreasing_by
  all_goals
    try simp only [List.cons.sizeOf_spec] at size
    omega

theorem pieces_adds (layout : Layout) (parts : List Token) (within : ∀ part ∈ parts, root.Within part)
    (inline : ∀ part ∈ parts, Token.Inline part) :
    Adds fold root (gatherAll isSkipped parts) (pieces fold layout parts) := by
  cases found : parts with
  | nil =>
    unfold pieces
    exact .pure
  | cons part rest =>
    have size := congrArg sizeOf found
    rw [found] at within inline
    obtain ⟨inside, further⟩ := List.forall_mem_cons.mp within
    obtain ⟨first, others⟩ := List.forall_mem_cons.mp inline
    have smaller := sizeOf_children_lt part
    have more := pieces_adds layout rest further others
    have keeps : gatherAll isSkipped (part :: rest) = part.kept ++ gatherAll isSkipped rest := rfl
    rw [keeps]
    cases first with
    | text is leaf =>
      have authored : part.kind.isAuthored = true := by rw [is]; rfl
      rw [kept_leaf authored leaf]
      have becomes : Adds fold root [part] (push part.text) :=
        push_adds (.becomes inside authored (.text is))
      obtain ⟨kind, span, text, expr, children⟩ := part
      dsimp only at is
      subst is
      unfold pieces
      exact .bind becomes more
    | output output =>
      have one : Adds fold root part.kept (outputs fold [part]) := by
        have puts : Adds fold root _ _ :=
          outputs_adds (List.forall_mem_singleton.mpr inside) (List.forall_mem_singleton.mpr output)
        rwa [gatherAll, gatherAll, List.append_nil] at puts
      have is := output.is
      obtain ⟨kind, span, text, expr, children⟩ := part
      dsimp only at is
      obtain rfl | rfl := is
      · unfold pieces
        exact .bind one more
      · unfold pieces
        exact .bind one more
    | tag is all named inner word =>
      have tag : Adds fold root _ _ :=
        tag_adds layout false part.span.start part inside is (.tag is all named inner word) [] nofun nofun
      rw [show gatherAll isSkipped [] = [] from rfl, List.append_nil] at tag
      obtain ⟨kind, span, text, expr, children⟩ := part
      dsimp only at is
      subst is
      unfold pieces
      exact .bind tag more
    | attributes is pairs =>
      have quiet : part.kind.isAuthored = false := by rw [is]; rfl
      have silent : Silent part := .other quiet fun pair member => (pairs pair member).silent
      have tag : part.kind ≠ .tagLine := by rw [is]; nofun
      rw [pieces_silent fold layout silent tag, Silent.kept silent]
      exact more
    | silent tag _ silent =>
      rw [pieces_silent fold layout silent tag, Silent.kept silent]
      exact more
termination_by 2 * sizeOf parts + 1
decreasing_by
  all_goals
    try simp only [List.cons.sizeOf_spec, List.nil.sizeOf_spec] at size ⊢
    omega

theorem tag_adds (layout : Layout) (ownLine : Bool) (offset : Nat) (token : Token)
    (within : root.Within token) (is : token.kind = .tagLine) (inline : Token.Inline token)
    (nested : List Token) (inside : ∀ line ∈ nested, root.Within line)
    (formed : ∀ line ∈ nested, Formed line) :
    Adds fold root (token.kept ++ gatherAll isSkipped nested)
      (tag fold layout ownLine offset token.children nested) := by
  have quiet : token.kind.isAuthored = false := by rw [is]; rfl
  obtain ⟨name, parts, all, named, inner, -⟩ := parts_of_tag is inline
  have skipped : token.isSkipped = (Markup.isVoid (tagName token.children) ||
      token.children.any (·.kind == .trailingSlash)) := by simp [isSkipped, isHidden, isClosed, is]
  have positive := sizeOf_lines_pos token.children
  have size := congrArg sizeOf all
  rw [tag_eq, ← skipped]
  refine .after (.after (.after (.after ?content ?attributes) ?shorthand) ?name) ?opening
  case opening =>
    unfold opening
    split
    · exact newline_adds within quiet layout
    · exact .pure
  case name => exact push_adds (.marks within quiet (.tagStart is))
  case shorthand => exact push_adds (.marks within quiet (.shorthand is))
  case attributes =>
    exact .forM_quiet fun part member => attributes_adds (within.part member) (inner part (all ▸ member))
  case content =>
    cases skips : token.isSkipped with
    | true =>
      have none : token.kept = [] := by rw [kept, gather_eq, skips, if_pos rfl]
      have slash : Adds fold root [] (push "/>") := push_adds (.marks within quiet (.tagClosed is))
      rw [none]
      cases nested with
      | nil => exact .after .pure slash
      | cons line rest => exact .after (.throw _) slash
    | false =>
      have keeps : token.kept = gatherAll isSkipped parts := by
        rw [kept_eq quiet skips, all, gatherAll, show name.gather isSkipped = [] from Silent.kept named,
          List.nil_append]
      rw [keeps, all]
      obtain ⟨-, further⟩ := List.forall_mem_cons.mp (forall_within within all)
      have text := pieces_adds layout parts further (List.forall_mem_cons.mp inner).2
      have lines := block_adds { layout with depth := layout.depth + 1 } false none nested inside formed
      have ends : Marks fold token (Atom.chars ("</" ++ tagName (name :: parts) ++ ">")) := all ▸ .tagEnd is
      exact .after (text.bind (nesting_adds within quiet _ layout lines ends))
        (push_adds (.marks within quiet (.tagOpen is)))
termination_by 2 * (sizeOf token.children + sizeOf nested) + 1
decreasing_by
  all_goals
    try simp only [List.cons.sizeOf_spec] at size
    omega

end

end HtmlTemplate.Content
