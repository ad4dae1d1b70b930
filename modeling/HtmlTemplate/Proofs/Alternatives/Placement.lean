import HtmlTemplate.Proofs.Building.Single
import HtmlTemplate.Template.Source

/-! Where the chunks stand that are run by others: an alternative right after what it is an alternative to,
and the branches of a choice by value in that choice. Every template that has been compiled is so. -/

namespace HtmlTemplate

namespace Chunk

/-- Whether a chunk may come right after another one or, without one, at the start of a body. -/
def fitsAfter (previous : Option Chunk) : Chunk → Bool
  | elseIfBlock _ _ =>
    match previous with
    | some (ifBlock _ _) | some (elseIfBlock _ _) => true
    | _ => false
  | elseBlock _ =>
    match previous with
    | some (ifBlock _ _) | some (unlessBlock _ _) | some (elseIfBlock _ _) | some (eachBlock _ _ _ _) => true
    | _ => false
  | whenBlock _ _ | defaultBlock _ => false
  | _ => true

mutual

/-- Each chunk of a body fits after the one before it, and so it is in all bodies inside. -/
def placed (previous : Option Chunk) : List Chunk → Bool
  | [] => true
  | chunk :: rest => fitsAfter previous chunk && placedIn chunk && placed (some chunk) rest

/-- The chunks inside of a chunk are where they belong. -/
def placedIn : Chunk → Bool
  | caseBlock _ branches => placedBranches branches
  | ifBlock _ body | unlessBlock _ body | elseIfBlock _ body | elseBlock body | whenBlock _ body
  | defaultBlock body | eachBlock _ _ _ body | whileBlock _ body | mixin _ _ body => placed none body
  | _ => true

/-- In a choice by value there are branches and nothing else. -/
def placedBranches : List Chunk → Bool
  | [] => true
  | branch :: rest => branch.isBranch && placedIn branch && placedBranches rest

end

theorem placed_cons {previous : Option Chunk} {chunk : Chunk} {rest : List Chunk} :
    placed previous (chunk :: rest) = true ↔
      fitsAfter previous chunk = true ∧ placedIn chunk = true ∧ placed (some chunk) rest = true := by
  simp [placed, and_assoc]

theorem placedBranches_append (branches more : List Chunk) :
    placedBranches (branches ++ more) = (placedBranches branches && placedBranches more) := by
  induction branches with
  | nil => rfl
  | cons branch rest step => simp [placedBranches, step, Bool.and_assoc]

theorem fitsAfter_of_none {previous : Option Chunk} {chunk : Chunk} (fits : fitsAfter none chunk = true) :
    fitsAfter previous chunk = true := by
  cases chunk <;> first | rfl | cases fits

/-- What may stand at the start of a body may stand after anything. -/
theorem placed_of_none {previous : Option Chunk} {chunks : List Chunk} (first : placed none chunks = true) :
    placed previous chunks = true := by
  cases chunks with
  | nil => rfl
  | cons chunk rest =>
    obtain ⟨fits, inner, further⟩ := placed_cons.mp first
    exact placed_cons.mpr ⟨fitsAfter_of_none fits, inner, further⟩

/-- What comes after some chunks may be replaced. -/
theorem placed_append_imp {more other : List Chunk}
    (imp : ∀ {previous}, placed previous more = true → placed previous other = true)
    {previous : Option Chunk} {chunks : List Chunk} (placing : placed previous (chunks ++ more) = true) :
    placed previous (chunks ++ other) = true := by
  induction chunks generalizing previous with
  | nil => exact imp placing
  | cons chunk rest step =>
    obtain ⟨fits, inner, further⟩ := placed_cons.mp placing
    exact placed_cons.mpr ⟨fits, inner, step further⟩

theorem fitsAfter_of_bodiless {chunk : Chunk} (bodiless : chunk.bodiless = true) :
    fitsAfter none chunk = true ∧ placedIn chunk = true := by
  cases chunk <;> first | exact ⟨rfl, rfl⟩ | cases bodiless

end Chunk

namespace Alternatives

open Builder Building Chunk Compilation Folding

/-- A text may stand anywhere. -/
theorem placed_written {rest : List Chunk} (first : placed none rest = true) (text : String)
    (previous : Option Chunk) : placed previous (written text ++ rest) = true := by
  unfold written
  split
  · exact placed_of_none first
  · exact placed_cons.mpr ⟨rfl, rfl, placed_of_none first⟩

/-! What is built. -/

/-- What is built holds, and so it does with whatever fits after the last chunk. -/
def Stands (last : Option Chunk) (builder : Builder) : Prop :=
  ∀ rest, placed last rest = true → placed none (builder.chunks ++ rest) = true

namespace Stands

variable {last : Option Chunk} {builder built : Builder}

theorem chunks (stands : Stands last builder) : placed none builder.chunks = true := by
  simpa using stands [] rfl

theorem unready (stands : Stands last builder) : Stands none builder :=
  fun rest first => stands rest (placed_of_none first)

theorem blank (is : builder.IsBlank) : Stands none builder := by
  intro rest first
  rw [Builder.chunks, is.emitted, is.pending]
  exact first

theorem push {text : String} (stands : Stands last builder) (emitted : built.emitted = builder.emitted)
    (pending : built.pending = builder.pending ++ text) : Stands none built := by
  intro rest first
  have standing := stands rest (placed_of_none first)
  rw [Builder.chunks, List.append_assoc] at standing ⊢
  rw [emitted, pending]
  exact placed_append_imp (fun _ => placed_written first _ _) standing

theorem add {chunk : Chunk} (stands : Stands last builder) (fits : fitsAfter last chunk = true)
    (inner : placedIn chunk = true) (added : built.chunks = builder.chunks ++ [chunk]) :
    Stands (some chunk) built := by
  intro rest further
  rw [added, List.append_assoc]
  exact stands _ (placed_cons.mpr ⟨fits, inner, further⟩)

end Stands

/-- Whatever may come after a line may come after its chunk. -/
def Admits (ready : Option TokenKind) (last : Option Chunk) : Prop :=
  ∀ {token make}, control? token = some make → misplaced? ready token.kind = none →
    ∀ body, fitsAfter last (make body) = true

theorem admits_none : Admits none none := by
  intro token make found allowed body
  unfold control? at found
  split at found <;> cases found
  any_goals rfl
  all_goals simp_all [misplaced?]

theorem admits_control {token : Token} {make : List Chunk → Chunk} (found : control? token = some make)
    (body : List Chunk) : Admits (some token.kind) (some (make body)) := by
  intro other makeOther foundOther allowed bodyOther
  unfold control? at foundOther
  split at foundOther <;> cases foundOther
  any_goals rfl
  all_goals
    unfold control? at found
    split at found <;> cases found <;> simp_all [misplaced?, fitsAfter]

theorem placedIn_control {token : Token} {make : List Chunk → Chunk} (found : control? token = some make)
    (body : List Chunk) : placedIn (make body) = placed none body := by
  unfold control? at found
  split at found <;> cases found <;> rfl

/-- The chunks that have been built are where they belong, and after the last one there may be what may
come after its line. -/
def Placing (ready : Option TokenKind) (builder : Builder) : Prop :=
  ∃ last, Stands last builder ∧ Admits ready last

theorem Placing.chunks {ready : Option TokenKind} {builder : Builder} (placing : Placing ready builder) :
    placed none builder.chunks = true := by
  obtain ⟨last, stands, -⟩ := placing
  exact stands.chunks

theorem placing_none {builder : Builder} (stands : Stands none builder) : Placing none builder :=
  ⟨none, stands, admits_none⟩

theorem placing_upheld : Upheld Placing fun builder => placedBranches builder.chunks = true where
  blank is := placing_none (.blank is)
  branchless {builder} is := by
    rw [Builder.chunks, is.emitted, is.pending]
    rfl
  unready := by
    rintro ready builder ⟨last, stands, -⟩
    exact placing_none stands.unready
  pushed := by
    rintro ready builder built text ⟨last, stands, -⟩ emitted pending
    exact placing_none (stands.push emitted pending)
  put := by
    rintro builder built chunk bodiless ⟨last, stands, -⟩ added
    obtain ⟨fits, inner⟩ := fitsAfter_of_bodiless bodiless
    exact placing_none (stands.add (fitsAfter_of_none fits) inner added).unready
  controlled := by
    rintro token make ready outer inside built found allowed ⟨last, stands, admits⟩ body added
    refine ⟨_, stands.add (admits found allowed _) ?_ added, admits_control found _⟩
    rw [placedIn_control found]
    exact body.chunks
  shared := by
    rintro name signature ready outer inside built ⟨last, stands, -⟩ body added
    have stands : Stands (some (.mixin name signature inside.chunks)) built := stands.add rfl body.chunks added
    exact placing_none stands.unready
  branched {token make outer inside built} found branch before body added := by
    rw [added, placedBranches_append, before, placedBranches, control_branch found branch,
      placedIn_control found, body.chunks]
    rfl
  chosen := by
    rintro subject ready outer inside built ⟨last, stands, -⟩ body added
    have stands : Stands (some (.caseBlock subject inside.chunks)) built := stands.add rfl body added
    exact placing_none stands.unready

/-- In a compiled template all chunks are where they belong, whatever has been folded. -/
theorem template_placed {fold : Expr → Option Value} {options : TemplateOptions} {source : List Char}
    {template : Template} (compiled : Template.ofSourceWith fold options source = .ok template) :
    placed none template.chunks = true := by
  unfold Template.ofSourceWith at compiled
  cases read : Token.ofSource source with
  | error error =>
    rw [read] at compiled
    cases compiled
  | ok root =>
    rw [read] at compiled
    dsimp only at compiled
    cases built : compile fold options.pretty root with
    | error error =>
      rw [built] at compiled
      cases compiled
    | ok result =>
      rw [built] at compiled
      cases compiled
      obtain ⟨builder, placing, same⟩ :=
        placing_upheld.compile fold options.pretty (Token.ofSource_stated read) built
      rw [← same]
      exact placing.chunks

end Alternatives

end HtmlTemplate
