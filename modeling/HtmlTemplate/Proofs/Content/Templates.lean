import HtmlTemplate.Proofs.Content.Compilation
import HtmlTemplate.Template.Source

/-! Whatever compiles, each text, output and statement of code that is looked at is in the chunks once and
in its place. What stands in a tag without contents, or below the name of another document, is not
looked at. -/

namespace HtmlTemplate.Content

open Compilation Token

theorem compile_accounts (fold : Expr → Option Value) (pretty : Bool) {root : Token}
    (is : root.kind = .root) (formed : ∀ line ∈ root.children, line.Formed) {chunks : List Chunk}
    {includes : List String} (compiled : compile fold pretty root = .ok (chunks, includes)) :
    Accounts fold root root.kept (Chunk.atomsAll chunks) := by
  have looked : root.isSkipped = false := by simp [isSkipped, isHidden, isClosed, is]
  have quiet : root.kind.isAuthored = false := by rw [is]; rfl
  have adds : Adds fold root _ _ := block_adds { pretty, depth := 0 } false none root.children
    (forall_within .root rfl) formed
  rw [Building.compile_eq] at compiled
  rw [kept_eq quiet looked]
  cases ran : block fold { pretty, depth := 0 } false none root.children Builder.empty with
  | error error =>
    rw [ran] at compiled
    cases compiled
  | ok result =>
    obtain ⟨⟨⟩, after⟩ := result
    rw [ran] at compiled
    cases compiled
    obtain ⟨atoms, accounts, grown⟩ := adds Builder.empty after ran
    have alone : Chunk.atomsAll after.chunks = atoms := grown
    rw [alone]
    exact accounts

/-- A compiled template consists of what the authored parts of its source become, each once and in the
order of the source, and of markup. These are all authored parts just when none is lost. -/
theorem authored_accounted {options : TemplateOptions} {source : List Char} {template : Template}
    (compiled : Template.ofSource options source = .ok template) :
    ∃ root, Token.ofSource source = .ok root ∧
      Accounts Expr.constant? root root.kept (Chunk.atomsAll template.chunks) ∧
      (root.kept = root.authored ↔ root.lost = []) := by
  unfold Template.ofSource Template.ofSourceWith at compiled
  cases read : Token.ofSource source with
  | error error =>
    rw [read] at compiled
    cases compiled
  | ok root =>
    rw [read] at compiled
    dsimp only at compiled
    have is : root.kind = .root := kind_ofSource read
    cases built : compile Expr.constant? options.pretty root with
    | error error =>
      rw [built] at compiled
      cases compiled
    | ok result =>
      obtain ⟨chunks, includes⟩ := result
      rw [built] at compiled
      cases compiled
      exact ⟨root, rfl, compile_accounts _ _ is (ofSource_formed read) built, kept_eq_authored_iff root⟩

/-- Texts, outputs and code in their places. -/
def greeting : List Char :=
  "- count = 2\nif name\n  p= name, count, 1 + 1\n  p to #\x7bname\x7d #[b and] on\n  //- p= hidden".toList

/-- What is authored in it. -/
def greetingParts : List String := ["count = 2", "name, count, 1 + 1", "to ", "name", " ", "and", " on"]

theorem greeting_evaluated :
    (Template.ofSource { pretty := true, stopOnError := false } greeting).toOption.isSome = true ∧
      (Token.ofSource greeting).toOption.map (fun root => (root.lost.length, root.authored.map Token.text)) =
        some (0, greetingParts) := by
  unfold greeting
  rw [String.toList_ofList]
  decide +kernel

theorem greeting_accounted : ∃ template root,
    Template.ofSource { pretty := true, stopOnError := false } greeting = .ok template ∧
      Token.ofSource greeting = .ok root ∧
      root.authored.map Token.text = greetingParts ∧
      Accounts Expr.constant? root root.authored (Chunk.atomsAll template.chunks) := by
  cases compiled : Template.ofSource { pretty := true, stopOnError := false } greeting with
  | error error =>
    have compiles := greeting_evaluated.1
    rw [compiled] at compiles
    cases compiles
  | ok template =>
    obtain ⟨root, read, accounts, all⟩ := authored_accounted compiled
    have parts := greeting_evaluated.2
    rw [read] at parts
    obtain ⟨none, texts⟩ := Prod.mk.inj (Option.some.inj parts)
    rw [all.mpr (List.length_eq_zero_iff.mp none)] at accounts
    exact ⟨template, root, rfl, read, texts, accounts⟩

theorem output_of_unknown {fold : Expr → Option Value} {escape : Bool} {expr : Expr}
    {atoms : List Atom} (printed : Printed fold escape expr atoms) (unknown : fold expr = none) :
    .chunk (.output escape expr) ∈ atoms := by
  cases printed with
  | output => exact List.mem_singleton_self _
  | text known => cases unknown.symm.trans known
  | escapable known => cases unknown.symm.trans known

/-- In chunks that are texts there are only characters. -/
theorem chunk_notMem_of_isText {chunks : List Chunk} (texts : chunks.all Chunk.isText = true)
    (head : Chunk) : .chunk head ∉ Chunk.atomsAll chunks := by
  induction chunks with
  | nil => nofun
  | cons chunk rest step =>
    rw [List.all_cons, Bool.and_eq_true] at texts
    obtain ⟨first, others⟩ := texts
    cases chunk with
    | text content =>
      intro member
      rcases List.mem_append.mp member with member | member
      · obtain ⟨char, -, same⟩ := List.mem_map.mp member
        cases same
      · exact step others member
    | _ => cases first

/-- An element of an output that has no value yet is met as an output. -/
theorem output_met {fold : Expr → Option Value} {root token : Token} {parts : List Token} {atoms : List Atom}
    (accounts : Accounts fold root parts atoms) (member : token ∈ parts)
    (is : token.kind = .escapedOutput) {expr item : Expr} (states : token.expr = some expr)
    (element : item ∈ expr.sequence) (unknown : fold item = none) :
    .chunk (.output true item) ∈ atoms := by
  obtain ⟨items, rfl, rfl, each⟩ := accounts
  obtain ⟨listed, authored⟩ := List.mem_filter.mp member
  obtain ⟨entry, inside, rfl⟩ := List.mem_map.mp listed
  obtain ⟨-, gives⟩ := each entry inside
  rw [if_pos authored] at gives
  refine List.mem_flatMap.mpr ⟨entry, inside, ?_⟩
  generalize entry.2 = atoms at gives
  cases gives with
  | text other => cases is.symm.trans other
  | code other => cases is.symm.trans other
  | folded other => cases is.symm.trans other
  | output _ stated prints =>
    cases states.symm.trans stated
    obtain ⟨index, bound, rfl⟩ := List.mem_iff_getElem.mp element
    have printed := prints.get bound (prints.length_eq ▸ bound)
    simp only [List.get_eq_getElem, is, beq_self_eq_true] at printed
    refine List.mem_flatten.mpr ⟨_, List.getElem_mem (prints.length_eq ▸ bound), ?_⟩
    exact output_of_unknown printed unknown

/-- An output in a tag that has no contents. -/
def lineBreak : List Char := "br= nope".toList

theorem lineBreak_evaluated :
    (Template.ofSource { pretty := false, stopOnError := false } lineBreak).toOption.map
        (fun template => template.chunks.all Chunk.isText) = some true ∧
      (Token.ofSource lineBreak).toOption.map (fun root => root.authored.any fun token =>
        token.kind == .escapedOutput && token.expr.any fun expr =>
          expr.sequence.any fun item => item.constant?.isNone) = some true := by
  decide +kernel

/-- The output is not in the chunks. -/
theorem lineBreak_dropped : ∃ template root,
    Template.ofSource { pretty := false, stopOnError := false } lineBreak = .ok template ∧
      Token.ofSource lineBreak = .ok root ∧
      ¬ Accounts Expr.constant? root root.authored (Chunk.atomsAll template.chunks) := by
  obtain ⟨texts, outputs⟩ := lineBreak_evaluated
  cases compiled : Template.ofSource { pretty := false, stopOnError := false } lineBreak with
  | error error =>
    rw [compiled] at texts
    cases texts
  | ok template =>
    cases read : Token.ofSource lineBreak with
    | error error =>
      rw [read] at outputs
      cases outputs
    | ok root =>
      rw [compiled] at texts
      rw [read] at outputs
      have texts : template.chunks.all Chunk.isText = true := Option.some.inj texts
      obtain ⟨token, member, output⟩ := List.any_eq_true.mp (Option.some.inj outputs)
      obtain ⟨is, states⟩ := Bool.and_eq_true_iff.mp output
      obtain ⟨expr, states, elements⟩ := (Option.any_eq_true _ _).mp states
      obtain ⟨item, element, unknown⟩ := List.any_eq_true.mp elements
      refine ⟨template, root, rfl, rfl, fun accounts => ?_⟩
      exact chunk_notMem_of_isText texts _ (output_met accounts member (beq_iff_eq.mp is) states element
        (Option.isNone_iff_eq_none.mp unknown))

end HtmlTemplate.Content
