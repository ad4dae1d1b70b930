import HtmlTemplate.Template.Chunk
import HtmlTemplate.Value.Printing

/-! Folding done after a template has been compiled: the chunks whose text is known are joined
with the texts around them, and code whose value is known is left out. -/

namespace HtmlTemplate

namespace Chunk

/-- Whether a chunk goes with the one before it. -/
def isAlternative (chunk : Chunk) : Bool := chunk.isElseIf || chunk.isElse

/-- Whether a chunk is a branch of a choice by value. -/
def isBranch : Chunk → Bool
  | whenBlock _ _ | defaultBlock _ => true
  | _ => false

/-- Whether a chunk has no body. -/
def bodiless : Chunk → Bool
  | text _ | output _ _ | escapable _ | attr _ _ _ | attrs _ | code _ | includeTemplate _ _
  | mixinCall _ _ => true
  | _ => false

end Chunk

namespace Folding

section

variable (fold : Expr → Option Value)

/-- Whether an output of a known value is kept apart, because escaping would change it. -/
def staysApart (escape : Bool) (value : Value) : Bool := escape && value.output true != value.printed

/-- The text that takes the place of a chunk. -/
def absorbed? : Chunk → Option String
  | .text content => some content
  | .output escape expr =>
    match fold expr with
    | some value => if staysApart escape value then none else some value.printed
    | none => none
  | .attr escape name expr => (fold expr).map (·.attributeMarkup name escape)
  | .code expr => (fold expr).map fun _ => ""
  | _ => none

/-- The chunk of a text, if there is any text. -/
def written (text : String) : List Chunk := if text = "" then [] else [.text text]

mutual

/-- What becomes of a chunk that text cannot take the place of. -/
def refoldChunk : Chunk → Chunk
  | .output escape expr =>
    match fold expr with
    | some value => .escapable value.printed
    | none => .output escape expr
  | .ifBlock guard body => .ifBlock guard (refoldAfter "" body)
  | .unlessBlock guard body => .unlessBlock guard (refoldAfter "" body)
  | .elseIfBlock guard body => .elseIfBlock guard (refoldAfter "" body)
  | .elseBlock body => .elseBlock (refoldAfter "" body)
  | .caseBlock subject branches => .caseBlock subject (refoldBranches branches)
  | .whenBlock value body => .whenBlock value (refoldAfter "" body)
  | .defaultBlock body => .defaultBlock (refoldAfter "" body)
  | .eachBlock item key source body => .eachBlock item key source (refoldAfter "" body)
  | .whileBlock guard body => .whileBlock guard (refoldAfter "" body)
  | .mixin name signature body => .mixin name signature (refoldAfter "" body)
  | chunk => chunk

/-- Folds some chunks that come after a text. -/
def refoldAfter (text : String) : List Chunk → List Chunk
  | [] => written text
  | chunk :: rest =>
    match absorbed? fold chunk with
    | some more => refoldAfter (text ++ more) rest
    | none => written text ++ refoldChunk chunk :: refoldAfter "" rest

def refoldBranches : List Chunk → List Chunk
  | [] => []
  | branch :: rest => refoldChunk branch :: refoldBranches rest

end

def refold (chunks : List Chunk) : List Chunk := refoldAfter fold "" chunks

/-- What comes before some chunks is folded in the same way whatever they are. -/
theorem refoldAfter_append_congr {more other : List Chunk}
    (alike : ∀ text, refoldAfter fold text more = refoldAfter fold text other) (text : String)
    (chunks : List Chunk) :
    refoldAfter fold text (chunks ++ more) = refoldAfter fold text (chunks ++ other) := by
  induction chunks generalizing text with
  | nil => exact alike text
  | cons chunk rest step =>
    simp only [List.cons_append, refoldAfter]
    split
    · exact step _
    · rw [step]

theorem refoldAfter_written (text more : String) (rest : List Chunk) :
    refoldAfter fold text (written more ++ rest) = refoldAfter fold (text ++ more) rest := by
  unfold written
  split
  · rename_i empty
    rw [empty, String.append_empty]
    rfl
  · rfl

mutual

/-- In a body, an alternative comes first or right after a chunk that stays a chunk. `joined`
tells that this is so at the start of some chunks. -/
def Linked (joined : Bool) : List Chunk → Prop
  | [] => True
  | chunk :: rest =>
    (chunk.isAlternative = true → joined = true) ∧ LinkedIn chunk ∧
      Linked (absorbed? fold chunk).isNone rest

/-- The bodies in a chunk are linked, and a choice by value has no chunks but branches. -/
def LinkedIn : Chunk → Prop
  | .ifBlock _ body | .unlessBlock _ body | .elseIfBlock _ body | .elseBlock body
  | .whenBlock _ body | .defaultBlock body | .eachBlock _ _ _ body | .whileBlock _ body
  | .mixin _ _ body => Linked true body
  | .caseBlock _ branches => LinkedBranches branches
  | _ => True

def LinkedBranches : List Chunk → Prop
  | [] => True
  | branch :: rest => branch.isBranch = true ∧ LinkedIn branch ∧ LinkedBranches rest

end

/-- A chunk that text takes the place of is no alternative and has no body. -/
theorem linked_of_absorbed {chunk : Chunk} {text : String}
    (absorbed : absorbed? fold chunk = some text) :
    chunk.isAlternative = false ∧ LinkedIn fold chunk := by
  cases chunk with
  | text => exact ⟨rfl, trivial⟩
  | output => exact ⟨rfl, trivial⟩
  | attr => exact ⟨rfl, trivial⟩
  | code => exact ⟨rfl, trivial⟩
  | _ => cases absorbed

theorem linked_written {text : String} (nonempty : text ≠ "") (joined : Bool) (rest : List Chunk) :
    Linked fold joined (written text ++ rest) ↔ Linked fold false rest := by
  rw [written, if_neg nonempty]
  exact ⟨fun linked => linked.2.2, fun linked => ⟨nofun, trivial, linked⟩⟩

theorem linked_append_imp {more other : List Chunk}
    (imp : ∀ joined, Linked fold joined more → Linked fold joined other) {joined : Bool}
    {chunks : List Chunk} (linked : Linked fold joined (chunks ++ more)) :
    Linked fold joined (chunks ++ other) := by
  induction chunks generalizing joined with
  | nil => exact imp joined linked
  | cons chunk rest step =>
    obtain ⟨allowed, inner, further⟩ := linked
    exact ⟨allowed, inner, step further⟩

theorem Linked.join {chunks : List Chunk} {joined : Bool} (linked : Linked fold joined chunks) :
    Linked fold true chunks := by
  cases chunks with
  | nil => trivial
  | cons chunk rest =>
    obtain ⟨-, inner, further⟩ := linked
    exact ⟨fun _ => rfl, inner, further⟩

theorem refoldBranches_eq (branches : List Chunk) :
    refoldBranches fold branches = branches.map (refoldChunk fold) := by
  induction branches with
  | nil => rfl
  | cons branch rest step => rw [refoldBranches, step, List.map_cons]

theorem linkedBranches_iff {branches : List Chunk} :
    LinkedBranches fold branches ↔
      ∀ branch ∈ branches, branch.isBranch = true ∧ LinkedIn fold branch := by
  induction branches with
  | nil => simp [LinkedBranches]
  | cons branch rest step => simp [LinkedBranches, step, and_assoc]

end

/-! Branches that folding leaves nothing of. A branch without a body leads to the next one that
has a body, so folding changes what is run where a body is folded away and a later one is not.
Apart from that, the chunks with and without folding correspond. -/

section

variable (fold : Expr → Option Value)

/-- A branch for a value that has a body when it has been folded. -/
def leaves : Chunk → Bool
  | .whenBlock _ body => !(refold fold body).isEmpty
  | _ => false

mutual

/-- A chunk without the bodies that count as none once they have been folded. -/
def hollowChunk : Chunk → Chunk
  | .ifBlock guard body => .ifBlock guard (hollow body)
  | .unlessBlock guard body => .unlessBlock guard (hollow body)
  | .elseIfBlock guard body => .elseIfBlock guard (hollow body)
  | .elseBlock body => .elseBlock (hollow body)
  | .caseBlock subject branches => .caseBlock subject (hollowBranches branches)
  | .whenBlock value body => .whenBlock value (hollow body)
  | .defaultBlock body => .defaultBlock (hollow body)
  | .eachBlock item key source body => .eachBlock item key source (hollow body)
  | .whileBlock guard body => .whileBlock guard (hollow body)
  | .mixin name signature body => .mixin name signature (hollow body)
  | chunk => chunk

def hollow : List Chunk → List Chunk
  | [] => []
  | chunk :: rest => hollowChunk chunk :: hollow rest

/-- The branch for a value has no body if nothing is left of its body, but of a later one. -/
def hollowBranches : List Chunk → List Chunk
  | [] => []
  | .whenBlock value body :: rest =>
    .whenBlock value (if (refold fold body).isEmpty && rest.any (leaves fold) then [] else hollow body)
      :: hollowBranches rest
  | branch :: rest => hollowChunk branch :: hollowBranches rest

end

mutual

/-- Whether no branch that would lose its body is in a chunk. -/
def solidChunk : Chunk → Bool
  | .ifBlock _ body | .unlessBlock _ body | .elseIfBlock _ body | .elseBlock body
  | .whenBlock _ body | .defaultBlock body | .eachBlock _ _ _ body | .whileBlock _ body
  | .mixin _ _ body => solid body
  | .caseBlock _ branches => solidBranches branches
  | _ => true

def solid : List Chunk → Bool
  | [] => true
  | chunk :: rest => solidChunk chunk && solid rest

def solidBranches : List Chunk → Bool
  | [] => true
  | .whenBlock _ body :: rest =>
    (body.isEmpty || !((refold fold body).isEmpty && rest.any (leaves fold))) && solid body &&
      solidBranches rest
  | branch :: rest => solidChunk branch && solidBranches rest

end

/-- No branch for a value among some branches has a body. -/
def NoneHas (branches : List Chunk) : Prop := ∀ value body, .whenBlock value body ∈ branches → body = []

mutual

/-- Some chunks and what they are folded into, after some text. `joined` tells that no chunk has
become text since the last one that has not. -/
inductive Folds : Bool → String → List Chunk → List Chunk → Prop where
  | done {joined : Bool} {text : String} : Folds joined text [] (written text)
  | absorbed {joined : Bool} {text more : String} {chunk : Chunk} {rest folded : List Chunk}
      (known : absorbed? fold chunk = some more) (further : Folds false (text ++ more) rest folded) :
      Folds joined text (chunk :: rest) folded
  | kept {joined : Bool} {text : String} {chunk other : Chunk} {rest folded : List Chunk}
      (linked : chunk.isAlternative = true → joined = true) (becomes : Becomes chunk other)
      (further : Folds true "" rest folded) :
      Folds joined text (chunk :: rest) (written text ++ other :: folded)

/-- A chunk that stays a chunk, and what it is folded into. -/
inductive Becomes : Chunk → Chunk → Prop where
  | same (chunk : Chunk) (bodiless : chunk.bodiless = true) : Becomes chunk chunk
  | escapable {expr : Expr} {value : Value} (known : fold expr = some value) :
      Becomes (.output true expr) (.escapable value.printed)
  | ifBlock {guard : Expr} {body folded : List Chunk} (inner : Folds true "" body folded) :
      Becomes (.ifBlock guard body) (.ifBlock guard folded)
  | unlessBlock {guard : Expr} {body folded : List Chunk} (inner : Folds true "" body folded) :
      Becomes (.unlessBlock guard body) (.unlessBlock guard folded)
  | elseIfBlock {guard : Expr} {body folded : List Chunk} (inner : Folds true "" body folded) :
      Becomes (.elseIfBlock guard body) (.elseIfBlock guard folded)
  | elseBlock {body folded : List Chunk} (inner : Folds true "" body folded) :
      Becomes (.elseBlock body) (.elseBlock folded)
  | caseBlock {subject : Expr} {branches folded : List Chunk} (inner : Branches branches folded) :
      Becomes (.caseBlock subject branches) (.caseBlock subject folded)
  | whenBlock {value : Expr} (body folded : List Chunk) :
      Becomes (.whenBlock value body) (.whenBlock value folded)
  | defaultBlock (body folded : List Chunk) : Becomes (.defaultBlock body) (.defaultBlock folded)
  | eachBlock {item : String} {key : Option String} {source : Expr} {body folded : List Chunk}
      (inner : Folds true "" body folded) :
      Becomes (.eachBlock item key source body) (.eachBlock item key source folded)
  | whileBlock {guard : Expr} {body folded : List Chunk} (inner : Folds true "" body folded) :
      Becomes (.whileBlock guard body) (.whileBlock guard folded)
  | mixin {name : String} {signature : Expr} {body folded : List Chunk}
      (inner : Folds true "" body folded) :
      Becomes (.mixin name signature body) (.mixin name signature folded)

/-- The branches of a choice by value. Where one has lost its body, no later one has a body. -/
inductive Branches : List Chunk → List Chunk → Prop where
  | none : Branches [] []
  | whenBlock {value : Expr} {body folded rest others : List Chunk}
      (inner : Folds true "" body folded) (lost : folded = [] → body = [] ∨ NoneHas others)
      (further : Branches rest others) :
      Branches (.whenBlock value body :: rest) (.whenBlock value folded :: others)
  | defaultBlock {body folded rest others : List Chunk} (inner : Folds true "" body folded)
      (further : Branches rest others) :
      Branches (.defaultBlock body :: rest) (.defaultBlock folded :: others)
  | stray {chunk other : Chunk} {rest others : List Chunk} (first : chunk.isBranch = false)
      (second : other.isBranch = false) (further : Branches rest others) :
      Branches (chunk :: rest) (other :: others)

end

/-! Chunks without a branch that would lose its body. -/

mutual

theorem hollow_of_solid {chunks : List Chunk} (holds : solid fold chunks = true) :
    hollow fold chunks = chunks := by
  cases chunks with
  | nil => rfl
  | cons chunk rest =>
    obtain ⟨first, others⟩ := Bool.and_eq_true_iff.mp holds
    rw [hollow, hollowChunk_of_solid first, hollow_of_solid others]
termination_by structural chunks

theorem hollowChunk_of_solid {chunk : Chunk} (holds : solidChunk fold chunk = true) :
    hollowChunk fold chunk = chunk := by
  cases chunk with
  | ifBlock guard body => exact congrArg (Chunk.ifBlock guard) (hollow_of_solid holds)
  | unlessBlock guard body => exact congrArg (Chunk.unlessBlock guard) (hollow_of_solid holds)
  | elseIfBlock guard body => exact congrArg (Chunk.elseIfBlock guard) (hollow_of_solid holds)
  | elseBlock body => exact congrArg Chunk.elseBlock (hollow_of_solid holds)
  | caseBlock subject branches =>
    exact congrArg (Chunk.caseBlock subject) (hollowBranches_of_solid holds)
  | whenBlock value body => exact congrArg (Chunk.whenBlock value) (hollow_of_solid holds)
  | defaultBlock body => exact congrArg Chunk.defaultBlock (hollow_of_solid holds)
  | eachBlock item key source body =>
    exact congrArg (Chunk.eachBlock item key source) (hollow_of_solid holds)
  | whileBlock guard body => exact congrArg (Chunk.whileBlock guard) (hollow_of_solid holds)
  | mixin name signature body =>
    exact congrArg (Chunk.mixin name signature) (hollow_of_solid holds)
  | _ => rfl
termination_by structural chunk

theorem hollowBranches_of_solid {branches : List Chunk} (holds : solidBranches fold branches = true) :
    hollowBranches fold branches = branches := by
  cases branches with
  | nil => rfl
  | cons branch rest =>
    cases branch with
    | whenBlock value body =>
      obtain ⟨most, others⟩ := Bool.and_eq_true_iff.mp holds
      obtain ⟨stays, inner⟩ := Bool.and_eq_true_iff.mp most
      have same : (if (refold fold body).isEmpty && rest.any (leaves fold) then [] else hollow fold body) =
          body := by
        split
        · rename_i lost
          rw [lost, Bool.not_true, Bool.or_false] at stays
          exact (List.isEmpty_iff.mp stays).symm
        · exact hollow_of_solid inner
      rw [hollowBranches, same, hollowBranches_of_solid others]
    | _ =>
      obtain ⟨first, others⟩ := Bool.and_eq_true_iff.mp holds
      rw [hollowBranches, hollowChunk_of_solid first, hollowBranches_of_solid others]
      nofun
termination_by structural branches

end

/-! Chunks that are not folded at all. -/

mutual

theorem folds_refl (chunks : List Chunk) : Folds fold true "" chunks chunks := by
  cases chunks with
  | nil => exact .done
  | cons chunk rest => exact .kept (fun _ => rfl) (becomes_refl chunk) (folds_refl rest)
termination_by structural chunks

theorem becomes_refl (chunk : Chunk) : Becomes fold chunk chunk := by
  cases chunk with
  | ifBlock guard body => exact .ifBlock (folds_refl body)
  | unlessBlock guard body => exact .unlessBlock (folds_refl body)
  | elseIfBlock guard body => exact .elseIfBlock (folds_refl body)
  | elseBlock body => exact .elseBlock (folds_refl body)
  | caseBlock subject branches => exact .caseBlock (branches_refl branches)
  | whenBlock value body => exact .whenBlock body body
  | defaultBlock body => exact .defaultBlock body body
  | eachBlock item key source body => exact .eachBlock (folds_refl body)
  | whileBlock guard body => exact .whileBlock (folds_refl body)
  | mixin name signature body => exact .mixin (folds_refl body)
  | _ => exact .same _ rfl
termination_by structural chunk

theorem branches_refl (branches : List Chunk) : Branches fold branches branches := by
  cases branches with
  | nil => exact .none
  | cons branch rest =>
    have further := branches_refl rest
    cases branch with
    | whenBlock value body => exact .whenBlock (folds_refl body) .inl further
    | defaultBlock body => exact .defaultBlock (folds_refl body) further
    | _ => exact .stray rfl rfl further
termination_by structural branches

end

/-! What folding makes of the chunks of a template. -/

theorem hollowChunk_of_absorbed {chunk : Chunk} {text : String}
    (absorbed : absorbed? fold chunk = some text) : hollowChunk fold chunk = chunk := by
  cases chunk with
  | text => rfl
  | output => rfl
  | attr => rfl
  | code => rfl
  | _ => cases absorbed

theorem isAlternative_hollowChunk (chunk : Chunk) :
    (hollowChunk fold chunk).isAlternative = chunk.isAlternative := by
  cases chunk <;> rfl

theorem noneHas_of_leaves {branches : List Chunk} (none : branches.any (leaves fold) = false) :
    NoneHas (refoldBranches fold branches) := by
  intro value body member
  rw [refoldBranches_eq] at member
  obtain ⟨branch, inside, same⟩ := List.mem_map.mp member
  have empty := List.any_eq_false.mp none branch inside
  cases branch with
  | whenBlock value body =>
    cases same
    simpa [leaves, refold] using empty
  | output escape expr =>
    unfold refoldChunk at same
    split at same <;> cases same
  | _ => cases same

mutual

theorem folds_hollow {joined : Bool} (text : String) (chunks : List Chunk)
    (linked : Linked fold joined chunks) :
    Folds fold joined text (hollow fold chunks) (refoldAfter fold text chunks) := by
  cases chunks with
  | nil => exact .done
  | cons chunk rest =>
    obtain ⟨allowed, inner, further⟩ := linked
    unfold hollow refoldAfter
    cases known : absorbed? fold chunk with
    | some more =>
      rw [hollowChunk_of_absorbed fold known]
      rw [known] at further
      exact .absorbed known (folds_hollow _ rest further)
    | none =>
      rw [known] at further
      refine .kept ?_ (becomes_hollow chunk known inner) (folds_hollow "" rest further)
      rw [isAlternative_hollowChunk]
      exact allowed
termination_by structural chunks

theorem becomes_hollow (chunk : Chunk) (apart : absorbed? fold chunk = none)
    (inner : LinkedIn fold chunk) :
    Becomes fold (hollowChunk fold chunk) (refoldChunk fold chunk) := by
  cases chunk with
  | ifBlock guard body => exact .ifBlock (folds_hollow "" body inner)
  | unlessBlock guard body => exact .unlessBlock (folds_hollow "" body inner)
  | elseIfBlock guard body => exact .elseIfBlock (folds_hollow "" body inner)
  | elseBlock body => exact .elseBlock (folds_hollow "" body inner)
  | caseBlock subject branches => exact .caseBlock (branches_hollow branches inner)
  | whenBlock value body => exact .whenBlock _ _
  | defaultBlock body => exact .defaultBlock _ _
  | eachBlock item key source body => exact .eachBlock (folds_hollow "" body inner)
  | whileBlock guard body => exact .whileBlock (folds_hollow "" body inner)
  | mixin name signature body => exact .mixin (folds_hollow "" body inner)
  | output escape expr =>
    unfold hollowChunk refoldChunk
    cases known : fold expr with
    | none => exact .same _ rfl
    | some value =>
      cases escape with
      | true => exact .escapable known
      | false => simp [absorbed?, known, staysApart] at apart
  | text content => cases apart
  | _ => exact .same _ rfl
termination_by structural chunk

theorem branches_hollow (branches : List Chunk) (linked : LinkedBranches fold branches) :
    Branches fold (hollowBranches fold branches) (refoldBranches fold branches) := by
  cases branches with
  | nil => exact .none
  | cons branch rest =>
    obtain ⟨isBranch, inner, others⟩ := linked
    have further := branches_hollow rest others
    cases branch with
    | whenBlock value body =>
      have whole := folds_hollow "" body inner
      unfold hollowBranches refoldBranches refoldChunk
      split
      · rename_i lost
        obtain ⟨empty, -⟩ := Bool.and_eq_true_iff.mp lost
        have none : refoldAfter fold "" body = [] := List.isEmpty_iff.mp empty
        rw [none]
        exact .whenBlock .done (fun _ => .inl rfl) further
      · rename_i stays
        refine .whenBlock whole (fun empty => .inr (noneHas_of_leaves fold ?_)) further
        simpa [refold, empty] using stays
    | defaultBlock body => exact .defaultBlock (folds_hollow "" body inner) further
    | _ => cases isBranch
termination_by structural branches

end

end

end Folding

end HtmlTemplate
