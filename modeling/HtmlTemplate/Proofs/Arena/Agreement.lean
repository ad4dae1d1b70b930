import HtmlTemplate.Expr.Filling
import HtmlTemplate.Proofs.Arena.Insertion
import HtmlTemplate.Proofs.Reading.Basic

/-! What is read into an arena is the tree that is read without one, and it fails with the same errors.
Whatever happens, what stands elsewhere in the arena stays as it is. -/

namespace HtmlTemplate.Arena

variable {arena before after : Arena} {region : List Nat} {place root : Nat} {tree : Expr} {below : List Nat}
  {input : Input}

/-- The places that have been added to an arena. -/
def added (arena after : Arena) : List Nat :=
  List.range' arena.length (after.length - arena.length)

theorem mem_added {other : Nat} : other ∈ added arena after ↔ arena.length ≤ other ∧ other < after.length := by
  unfold added
  rw [List.mem_range'_1]
  omega

theorem added_trans (first : arena.length ≤ before.length) (second : before.length ≤ after.length) :
    added arena before ++ added before after = added arena after := by
  unfold added
  have next : before.length = arena.length + (before.length - arena.length) := by omega
  have total : after.length - arena.length =
      (before.length - arena.length) + (after.length - before.length) := by omega
  rw [total, ← List.range'_append_1, ← next]

/-- A tree has been put together from the nodes at some places and of all that have been added. -/
structure Builds (arena : Arena) (region : List Nat) (root : Nat) (tree : Expr) (after : Arena) : Prop where
  grown : Grown arena region after
  whole : ∃ below, Holds after none root tree below ∧ List.Perm (root :: below) (region ++ added arena after)

/-- The nodes of a tree that has been put together are all different. -/
theorem nodup_of_perm {all : List Nat} (once : region.Nodup) (old : ∀ place ∈ region, place < arena.length)
    (places : List.Perm all (region ++ added arena after)) : all.Nodup := by
  refine places.nodup_iff.mpr (List.nodup_append.mpr ⟨once, List.nodup_range', fun other member new found => ?_⟩)
  rintro rfl
  have := old other member
  have := (mem_added.mp found).1
  omega

theorem Builds.trans {middle : Arena} {between : List Nat} (first : Grown arena region middle)
    (places : List.Perm between (region ++ added arena middle)) (second : Builds middle between root tree after) :
    Builds arena region root tree after := by
  obtain ⟨grown, below, held, split⟩ := second
  refine ⟨first.trans grown fun other member => ?_, below, held, split.trans ?_⟩
  · exact (List.mem_append.mp (places.mem_iff.mp member)).imp_right fun new => (mem_added.mp new).1
  · rw [← added_trans first.length grown.length, ← List.append_assoc]
    exact places.append_right _

/-- What reads into an arena does the same as what reads a tree. -/
inductive Follows (arena : Arena) (region : List Nat) (root : Nat) :
    Except ParseError (Parsed Expr input) → Except ParseError (Parsed Unit input) × Arena → Prop where
  | ok (parsed : Parsed Expr input) {after : Arena} (builds : Builds arena region root parsed.value after) :
      Follows arena region root (.ok parsed) (.ok (parsed.map fun _ => ()), after)
  | error {error : ParseError} {after : Arena} (grown : Grown arena region after) :
      Follows arena region root (.error error) (.error error, after)

/-! One thing after the other. -/

section

variable {α β : Type} {first : FillM α} {next : α → FillM β}

theorem bind_ok {value : α} (done : first before = (.ok value, after)) :
    (first >>= next) before = next value after := by
  change ExceptT.bindCont next (first before).1 (first before).2 = _
  rw [done]
  rfl

theorem bind_error {fault : ParseError} (failed : first before = (.error fault, after)) :
    (first >>= next) before = (.error fault, after) := by
  change ExceptT.bindCont next (first before).1 (first before).2 = _
  rw [failed]
  rfl

end

namespace Follows

theorem bind {start : Input} {read : Except ParseError (Parsed Expr input)} {fill : FillM (Parsed Unit input)}
    {next : Parsed Expr input → Except ParseError (Parsed Expr start)}
    {fillNext : Parsed Unit input → FillM (Parsed Unit start)} {wider : List Nat}
    (first : Follows before region place read (fill before))
    (goesOn : ∀ parsed after, Builds before region place parsed.value after →
      Follows arena wider root (next parsed) (fillNext (parsed.map fun _ => ()) after))
    (fails : ∀ after, Grown before region after → Grown arena wider after) :
    Follows arena wider root (read >>= next) ((fill >>= fillNext) before) := by
  generalize done : fill before = result at first
  cases first with
  | ok parsed builds =>
    rw [bind_ok done]
    exact goesOn parsed _ builds
  | error grown =>
    rw [bind_error done]
    exact .error (fails _ grown)

/-- What has been read is put into a tree. -/
theorem map {read : Except ParseError (Parsed Expr input)}
    {result : Except ParseError (Parsed Unit input) × Arena} {wider : List Nat} (change : Expr → Expr)
    (follows : Follows before region place read result)
    (goesOn : ∀ part after, Builds before region place part after → Builds arena wider root (change part) after)
    (fails : ∀ after, Grown before region after → Grown arena wider after) :
    Follows arena wider root (read >>= fun parsed => pure (parsed.map change)) result := by
  cases follows with
  | ok parsed builds => exact .ok (parsed.map change) (goesOn _ _ builds)
  | error grown => exact .error (fails _ grown)

/-- Reading goes on with the tree that has been put together. -/
theorem onward {middle : Arena} {read : Except ParseError (Parsed Expr input)}
    {result : Except ParseError (Parsed Unit input) × Arena} (once : region.Nodup)
    (old : ∀ place ∈ region, place < arena.length) (builds : Builds arena region root tree middle)
    (goesOn : ∀ below, Holds middle none root tree below → (root :: below).Nodup →
      Follows middle (root :: below) root read result) :
    Follows arena region root read result := by
  obtain ⟨grown, below, held, places⟩ := builds
  cases goesOn below held (nodup_of_perm once old places) with
  | ok parsed builds => exact .ok parsed (.trans grown places builds)
  | error more =>
    refine .error (grown.trans more fun other member => ?_)
    exact (List.mem_append.mp (places.mem_iff.mp member)).imp_right fun new => (mem_added.mp new).1

theorem goesOn {start : Input} {read : Except ParseError (Parsed Expr input)} {fill : FillM (Parsed Unit input)}
    {next : Parsed Expr input → Except ParseError (Parsed Expr start)}
    {fillNext : Parsed Unit input → FillM (Parsed Unit start)} (once : region.Nodup)
    (old : ∀ place ∈ region, place < arena.length) (first : Follows arena region root read (fill arena))
    (further : ∀ parsed middle below, Holds middle none root parsed.value below → (root :: below).Nodup →
      Follows middle (root :: below) root (next parsed) (fillNext (parsed.map fun _ => ()) middle)) :
    Follows arena region root (read >>= next) ((fill >>= fillNext) arena) :=
  first.bind (fun parsed middle builds => .onward once old builds (further parsed middle)) fun _ => id

/-- Reading from a later place on. -/
theorem widen {start : Input} (reached : start.Reaches input) {read : Except ParseError (Parsed Expr input)}
    {fill : FillM (Parsed Unit input)} (follows : Follows arena region root read (fill arena)) :
    Follows arena region root (read.map (.widen reached))
      ((fill >>= fun filled => pure (filled.widen reached)) arena) := by
  have same : read.map (.widen reached) = read >>= fun parsed => .ok (parsed.widen reached) := by
    cases read <;> rfl
  rw [same]
  exact follows.bind (fun parsed after builds => .ok (parsed.widen reached) builds) fun _ => id

end Follows

/-! Values and brackets. -/

theorem holds_leaf {leaf : Expr} (isLeaf : leaf.IsLeaf) (found : arena[place]? = some (.ofLeaf leaf)) :
    Holds arena none place leaf [] := by
  cases leaf with
  | name text => exact .name found
  | literal value => exact .literal found
  | noArguments => exact .noArguments found
  | _ => cases isLeaf

theorem added_self (arena : Arena) : added arena arena = [] := by
  unfold added
  rw [Nat.sub_self, List.range'_zero]

theorem grown_set (arena : Arena) (place : Nat) (node : Node) : Grown arena [place] (arena.set place node) := by
  have grown := stored_grown [] node arena place
  rwa [List.append_nil] at grown

theorem added_set (node : Node) : added arena (arena.set place node) = [] := by
  unfold added
  rw [List.length_set, Nat.sub_self, List.range'_zero]

theorem leaf_follows (inside : place < arena.length) {read : Except ParseError (Parsed Expr input)}
    (leaf : ∀ parsed, read = .ok parsed → parsed.value.IsLeaf) :
    Follows arena [place] place read (Filling.leaf place read arena) := by
  cases read with
  | error fault => exact .error (.refl arena _)
  | ok parsed =>
    refine .ok parsed ⟨grown_set .., [], holds_leaf (leaf parsed rfl) (List.getElem?_set_self inside), ?_⟩
    rw [added_set]
    exact .refl _

/-- Brackets around a tree without brackets. -/
theorem Holds.mark (held : Holds arena none place tree below) (plain : tree.isBracketed = false)
    (bracket : Bracket)
    (top : after[place]? = some { arena.node place with bracket := some bracket })
    (rest : ∀ other ∈ below, after[other]? = arena[other]?) :
    Holds after none place (.bracketed bracket tree) below := by
  refine .marked plain ?_
  cases held with
  | name found => exact .name (by rw [top, node_eq found])
  | literal found => exact .literal (by rw [top, node_eq found])
  | noArguments found => exact .noArguments (by rw [top, node_eq found])
  | unary found held => exact .unary (by rw [top, node_eq found]) (held.congr rest)
  | binary found heldLeft heldRight =>
    obtain ⟨left, right⟩ := List.forall_mem_append.mp rest
    exact .binary (by rw [top, node_eq found]) (heldLeft.congr left) (heldRight.congr right)
  | _ => cases plain

/-- Empty brackets are a tree. -/
theorem empty_builds (inside : place < arena.length) {enclosure : Enclosure} {empty : Expr}
    (empties : enclosure.empty? = some empty) :
    Builds arena [place] place empty
      (arena.set place { Node.blank with op := enclosure.op, bracket := some enclosure.mark }) := by
  have found : (arena.set place { Node.blank with op := enclosure.op, bracket := some enclosure.mark })[place]? =
      some { Node.blank with op := enclosure.op, bracket := some enclosure.mark } :=
    List.getElem?_set_self inside
  refine ⟨grown_set .., [], ?_, by rw [added_set, List.append_nil]⟩
  cases enclosure with
  | branch => cases empties
  | bracket bracket =>
    cases bracket with
    | round => cases empties
    | square =>
      cases empties
      exact .emptyArray found
    | curly =>
      cases empties
      exact .emptyDict found

/-- A tree is enclosed in brackets. -/
theorem enclose_builds (held : Holds arena none root tree below) (once : (root :: below).Nodup)
    (bracket : Bracket) :
    Builds arena (root :: below) root (.bracketed bracket tree) (arena.enclose bracket root) := by
  obtain ⟨node, found, marks⟩ := held.bracket
  have inside : root < arena.length := held.inside root (List.mem_cons_self ..)
  have apart : ∀ other ∈ below, other ≠ root := by
    rintro other member rfl
    exact (List.nodup_cons.mp once).1 member
  unfold Arena.enclose
  dsimp only
  rw [node_eq found, marks, Option.isSome_none, Bool.false_or]
  cases double : tree.isBracketed with
  | true =>
    rw [if_pos rfl]
    have old := held.inside
    refine ⟨(stored_grown _ _ arena root).mono (by simp), _, .grouped (stored_here _ _ inside) double
      (held.moved ((stored_new _ _ inside 0).trans found.symm) fun other member => ?_), ?_⟩
    · exact stored_kept _ _ (apart other member) (old other (List.mem_cons_of_mem _ member))
    · have one : added arena ((arena ++ [node]).set root
          { Node.blank with left := some arena.length, bracket := some bracket }) = [arena.length] := by
        simp [added]
      rw [one]
      refine List.perm_iff_count.mpr fun other => ?_
      simp only [List.count_append, List.count_cons, List.count_nil]
      omega
  | false =>
    rw [if_neg Bool.false_ne_true]
    refine ⟨(grown_set ..).mono (by simp), below, held.mark double bracket ?_ fun other member => ?_, ?_⟩
    · rw [List.getElem?_set_self inside, node_eq found]
    · exact List.getElem?_set_ne (apart other member).symm
    · rw [added_set, List.append_nil]

/-! Rows of operands and operators. -/

theorem Opened.fails {op : Op} {slot : Nat} {middle : Arena} (opened : Opened arena root tree below op slot middle)
    (grown : Grown middle [slot] after) : Grown arena (root :: below) after := by
  refine opened.grown.trans grown fun other member => ?_
  rw [List.mem_singleton.mp member]
  exact .inr opened.new.1

/-- The right side of an operator has been read to its place. -/
theorem Opened.builds {middle : Arena} {op : Op} {slot : Nat} {right : Expr}
    (opened : Opened arena root tree below op slot middle) (filled : Builds middle [slot] slot right after) :
    Builds arena (root :: below) root (tree.insert op (some right)) after := by
  obtain ⟨grown, inner, held, split⟩ := filled
  obtain ⟨all, whole, places⟩ := opened.filled grown held
  refine ⟨opened.fails grown, all, whole, places.trans ?_⟩
  have two : added arena middle = [arena.length, arena.length + 1] := by
    unfold added
    rw [opened.length, Nat.add_sub_cancel_left]
    rfl
  have inner : List.Perm inner (added middle after) := (List.perm_cons slot).mp split
  rw [← added_trans opened.grown.length grown.length, two]
  exact ((inner.cons _).cons _).append_left _

theorem builds_unary {op : Op} {middle : Arena} {operand : Expr} (inside : place < arena.length)
    (led : middle = (arena ++ [Node.blank]).set place (.ofOp op (some arena.length) none))
    (filled : Builds middle [arena.length] arena.length operand after) :
    Builds arena [place] place (.unary op operand) after := by
  obtain ⟨grown, inner, held, split⟩ := filled
  have first : Grown arena [place] middle := led ▸ stored_grown ..
  have one : added arena middle = [arena.length] := by
    rw [led]
    simp [added]
  have top : after[place]? = some (.ofOp op (some arena.length) none) := by
    rw [grown.kept place (Nat.lt_of_lt_of_le inside first.length) (by rw [List.mem_singleton]; omega), led]
    exact stored_here _ _ inside
  refine ⟨first.trans grown fun other member => ?_, _, .unary top held, ?_⟩
  · rw [List.mem_singleton.mp member]
    exact .inr (Nat.le_refl _)
  · rw [← added_trans first.length grown.length, one]
    exact split.cons place

theorem insert_bind {α : Type} {op : Op} {slot : Option Nat} {goesOn : Option Nat → FillM α}
    (way : arena.insert op root = (place, after)) (right : (after.node place).right = slot) :
    (Filling.insert op root >>= goesOn) arena = goesOn slot after := by
  subst right
  exact bind_ok (by rw [Filling.insert, way])

/-! The steps of reading into an arena. -/

section

variable {options : ParseOptions}

theorem led_failed {fault : ParseError} (found : OperatorReading.readLeading options input = .error fault)
    (op : Op) : Filling.led options op place input = throw fault := by
  rw [Filling.led]
  split
  · rename_i other
    cases found.symm.trans other
    rfl
  · rename_i other
    cases found.symm.trans other
  · rename_i other
    cases found.symm.trans other

theorem led_marked {next : Input} {mark : Option Op}
    (found : OperatorReading.readLeading options input = .ok (some (mark, next))) (op : Op) :
    ∃ reached, Filling.led options op place input = (do
      let place ← Filling.lead mark place
      if !(Gap.skip options false next).2 then
        throw (.here .missingOperand (Gap.skip options false next).1.pos)
      else
        let filled ← Filling.led options op place (Gap.skip options false next).1
        return filled.widen reached) := by
  refine ⟨(OperatorReading.passes_of_readLeading found).1.trans (Gap.reaches_skip ..), ?_⟩
  conv => lhs; rw [Filling.led]
  split
  · rename_i other
    cases found.symm.trans other
  · rename_i other
    cases found.symm.trans other
    rfl
  · rename_i other
    cases found.symm.trans other

theorem led_unmarked (found : OperatorReading.readLeading options input = .ok none) (op : Op) :
    Filling.led options op place input =
      match input.rest with
      | [] => Filling.leaf place (Parser.readValue op input)
      | char :: _ =>
        match Enclosure.ofOpening? char with
        | none => Filling.leaf place (Parser.readValue op input)
        | some enclosure => Filling.group options enclosure place input.advance >>=
            fun filled => pure (filled.widen (Input.reaches_advance input)) := by
  rw [Filling.led]
  split
  · rename_i other
    cases found.symm.trans other
  · rename_i other
    cases found.symm.trans other
  · split
    · rename_i start
      rw [start]
    · rename_i start
      rw [start]
      dsimp only
      split
      · rename_i opening
        rw [opening]
      · rename_i opening
        rw [opening]

/-- A tree with a leading operator in front of it has been read. -/
theorem lead_follows {start : Input} (mark : Option Op) (inside : place < arena.length)
    (reached : start.Reaches input) {read : Except ParseError (Parsed Expr input)}
    {fill : Nat → FillM (Parsed Unit input)}
    (follows : ∀ (arena : Arena) (place : Nat), place < arena.length →
      Follows arena [place] place read (fill place arena)) :
    Follows arena [place] place (read.map fun operand => (operand.map (Parser.lead mark)).widen reached)
      ((Filling.lead mark place >>= fun place => fill place >>=
        fun filled => pure (filled.widen reached)) arena) := by
  have same : (read.map fun operand => (operand.map (Parser.lead mark)).widen reached) =
      read >>= fun operand => .ok ((operand.map (Parser.lead mark)).widen reached) := by
    cases read <;> rfl
  rw [same]
  cases mark with
  | none =>
    change Follows arena [place] place _ ((fill place >>= fun filled => pure (filled.widen reached)) arena)
    exact (follows arena place inside).bind
      (fun parsed after builds => .ok (parsed.widen reached) builds) fun _ => id
  | some op =>
    have led := stored_grown [.blank] (.ofOp op (some arena.length) none) arena place
    have operand := follows ((arena ++ [Node.blank]).set place (.ofOp op (some arena.length) none)) arena.length
      (by simp)
    change Follows arena [place] place _ ((fill arena.length >>= fun filled => pure (filled.widen reached))
      ((arena ++ [Node.blank]).set place (.ofOp op (some arena.length) none)))
    refine operand.bind (fun operand after builds => ?_) fun after grown => ?_
    · exact .ok ((operand.map _).widen reached) (builds_unary inside rfl builds)
    · exact led.trans grown fun other member => .inr (by simp at member; omega)

/-- The end of a row, as far as an arena is concerned. -/
def finish {stop : Input} (close : Option Char) (reached : input.Reaches stop) : FillM (Parsed Unit input) :=
  match close with
  | none => return ⟨(), stop, reached⟩
  | some mark => throw (.here (.unclosed mark) stop.pos)

section

variable {close : Option Char}

theorem operators_ended
    (ends : (Gap.skip options close.isNone input).2 = false ∨
      (close.any fun mark => (Gap.skip options close.isNone input).1.isAt mark) = false ∧
        OperatorReading.read options close.isSome (Gap.skip options close.isNone input).1 = .ok none) :
    Filling.operators options close root input = finish close (Gap.reaches_skip options close.isNone input) := by
  rw [Filling.operators.eq_def]
  dsimp only
  rcases ends with ends | ⟨opened, found⟩
  · rw [ends]
    rfl
  · rw [opened]
    split
    · rfl
    · rw [if_neg Bool.false_ne_true]
      split
      · rename_i other
        cases found.symm.trans other
      · rfl
      · rename_i other
        cases found.symm.trans other

variable (goesOn : (Gap.skip options close.isNone input).2 = true)
include goesOn

theorem operators_closed
    (closed : (close.any fun mark => (Gap.skip options close.isNone input).1.isAt mark) = true) :
    Filling.operators options close root input =
      pure ⟨(), (Gap.skip options close.isNone input).1, Gap.reaches_skip ..⟩ := by
  rw [Filling.operators.eq_def]
  dsimp only
  rw [goesOn, closed]
  rfl

variable (opened : (close.any fun mark => (Gap.skip options close.isNone input).1.isAt mark) = false)
include opened

theorem operators_failed {fault : ParseError}
    (found : OperatorReading.read options close.isSome (Gap.skip options close.isNone input).1 = .error fault) :
    Filling.operators options close root input = throw fault := by
  rw [Filling.operators.eq_def]
  dsimp only
  rw [goesOn, opened, if_neg (by decide), if_neg Bool.false_ne_true]
  split
  · rename_i other
    cases found.symm.trans other
    rfl
  · rename_i other
    cases found.symm.trans other
  · rename_i other
    cases found.symm.trans other

theorem operators_applied {op : Op} {next : Input}
    (found : OperatorReading.read options close.isSome (Gap.skip options close.isNone input).1 =
      .ok (some (op, next))) :
    ∃ reached : ∀ applied : Parsed Unit next, input.Reaches applied.rest,
      Filling.operators options close root input = Filling.apply options root op next >>= fun applied =>
        Filling.operators options close root applied.rest >>=
          fun rest => pure (rest.widen (reached applied)) := by
  refine ⟨fun applied => (Gap.reaches_skip ..).trans
    ((OperatorReading.passes_of_read found).1.trans applied.reached), ?_⟩
  rw [Filling.operators.eq_def]
  dsimp only
  rw [goesOn, opened, if_neg (by decide), if_neg Bool.false_ne_true]
  split
  · rename_i other
    cases found.symm.trans other
  · rename_i other
    cases found.symm.trans other
  · rename_i other
    cases found.symm.trans other
    rfl

end

end

section

variable (options : ParseOptions)

mutual

theorem operand_follows (op : Op) (input : Input) (arena : Arena) (place : Nat) (inside : place < arena.length) :
    Follows arena [place] place (Parser.readOperand options op input)
      (Filling.operand options op place input arena) := by
  have shorter := Gap.size_skip_le options false input
  rw [Parser.readOperand, Filling.operand]
  split
  · exact .error (.refl arena _)
  split
  · exact (leaf_follows inside fun _ => Reading.isLeaf_readName).widen _
  · exact (led_follows op _ arena place inside).widen _
termination_by 8 * input.size + 1
decreasing_by all_goals omega

theorem led_follows (op : Op) (input : Input) (arena : Arena) (place : Nat) (inside : place < arena.length) :
    Follows arena [place] place (Parser.readLed options op input)
      (Filling.led options op place input arena) := by
  cases found : OperatorReading.readLeading options input with
  | error fault =>
    rw [Reading.readLed_failed found, led_failed found]
    exact .error (.refl arena _)
  | ok leading =>
    cases leading with
    | some marked =>
      obtain ⟨mark, next⟩ := marked
      have later := (OperatorReading.passes_of_readLeading found).2
      have shorter := Gap.size_skip_le options false next
      obtain ⟨reached, read⟩ := Reading.readLed_marked found op
      obtain ⟨_, fill⟩ := led_marked found op
      rw [read, fill]
      cases ends : (Gap.skip options false next).2 with
      | true => exact lead_follows mark inside reached fun arena place => led_follows op _ arena place
      | false =>
        cases mark with
        | none => exact .error (.refl arena _)
        | some link => exact .error (stored_grown _ _ arena place)
    | none =>
      have value : Follows arena [place] place (Parser.readValue op input) _ :=
        leaf_follows inside fun _ => Reading.isLeaf_readValue
      rw [Reading.readLed_unmarked found, led_unmarked found]
      cases start : input.rest with
      | nil => exact value
      | cons char text =>
        dsimp only
        cases opening : Enclosure.ofOpening? char with
        | none => exact value
        | some enclosure =>
          have shorter : input.advance.size < input.size := by
            have : input.advance.size = input.size - 1 := Input.size_advance input
            have : 0 < input.size := by simp [Input.size, start]
            omega
          exact (group_follows enclosure _ arena place inside).widen _
termination_by 8 * input.size
decreasing_by all_goals omega

theorem group_follows (enclosure : Enclosure) (input : Input) (arena : Arena) (place : Nat)
    (inside : place < arena.length) :
    Follows arena [place] place (Parser.readGroup options enclosure input)
      (Filling.group options enclosure place input arena) := by
  have shorter := Gap.size_skip_le options false input
  have old : ∀ other ∈ [place], other < arena.length := by simpa using inside
  have operand := operand_follows enclosure.op (Gap.skip options false input).1 arena place inside
  rw [Parser.readGroup, Filling.group]
  dsimp only
  split
  · exact .error (.refl arena _)
  · have filled : Follows arena [place] place (do
          let first ← Parser.readOperand options enclosure.op (Gap.skip options false input).1
          let inner ← Parser.readOperators options (some enclosure.close) first.value first.rest
          return ⟨.bracketed enclosure.mark inner.value, inner.rest.advance, (Gap.reaches_skip ..).trans
            (first.reached.trans (inner.reached.trans (Input.reaches_advance _)))⟩)
        ((do
          let first ← Filling.operand options enclosure.op place (Gap.skip options false input).1
          let inner ← Filling.operators options (some enclosure.close) place first.rest
          Filling.enclose enclosure.mark place
          return ⟨(), inner.rest.advance, (Gap.reaches_skip ..).trans
            (first.reached.trans (inner.reached.trans (Input.reaches_advance _)))⟩ :
          FillM (Parsed Unit input)) arena) := by
      refine operand.goesOn (List.nodup_singleton place) old fun first middle below held once => ?_
      have := first.le
      have row := operators_follow (some enclosure.close) first.rest middle place below first.value held once
      refine row.goesOn once held.inside fun inner last below held once => ?_
      exact .ok _ (enclose_builds held once enclosure.mark)
    cases empties : enclosure.empty? with
    | none => exact filled
    | some empty =>
      cases (Gap.skip options false input).1.eat? enclosure.close with
      | none => exact filled
      | some next => exact .ok ⟨empty, _, _⟩ (empty_builds inside empties)
termination_by 8 * input.size + 3
decreasing_by all_goals omega

theorem operators_follow (close : Option Char) (input : Input) (arena : Arena) (root : Nat) (below : List Nat)
    (tree : Expr) (held : Holds arena none root tree below) (once : (root :: below).Nodup) :
    Follows arena (root :: below) root (Parser.readOperators options close tree input)
      (Filling.operators options close root input arena) := by
  have shorter := Gap.size_skip_le options close.isNone input
  have same : Builds arena (root :: below) root tree arena :=
    ⟨.refl .., below, held, by rw [added_self, List.append_nil]⟩
  have ended : Follows arena (root :: below) root
      (Reading.finish close tree (Gap.reaches_skip options close.isNone input))
      (finish close (Gap.reaches_skip options close.isNone input) arena) := by
    cases close with
    | none => exact .ok ⟨tree, _, _⟩ same
    | some mark => exact .error (.refl ..)
  cases goesOn : (Gap.skip options close.isNone input).2 with
  | false =>
    rw [Reading.readOperators_ended tree (.inl goesOn), operators_ended (.inl goesOn)]
    exact ended
  | true =>
    cases closed : close.any fun mark => (Gap.skip options close.isNone input).1.isAt mark with
    | true =>
      rw [Reading.readOperators_closed tree goesOn closed, operators_closed goesOn closed]
      exact .ok ⟨tree, _, _⟩ same
    | false =>
      cases found : OperatorReading.read options close.isSome (Gap.skip options close.isNone input).1 with
      | error fault =>
        rw [Reading.readOperators_failed tree goesOn closed found, operators_failed goesOn closed found]
        exact .error (.refl ..)
      | ok next =>
        cases next with
        | none =>
          rw [Reading.readOperators_ended tree (.inr ⟨closed, found⟩), operators_ended (.inr ⟨closed, found⟩)]
          exact ended
        | some next =>
          obtain ⟨op, next⟩ := next
          have later := (OperatorReading.passes_of_read found).2
          obtain ⟨reached, read⟩ := Reading.readOperators_applied tree goesOn closed found
          obtain ⟨_, fill⟩ := operators_applied goesOn closed found
          rw [read, fill]
          have applied := apply_follows op next arena root below tree held once
          refine applied.goesOn once held.inside fun parsed middle below held once => ?_
          have := parsed.le
          exact (operators_follow close parsed.rest middle root below parsed.value held once).widen _
termination_by 8 * input.size + 2
decreasing_by all_goals omega

theorem apply_follows (op : Op) (input : Input) (arena : Arena) (root : Nat) (below : List Nat) (tree : Expr)
    (held : Holds arena none root tree below) (once : (root :: below).Nodup) :
    Follows arena (root :: below) root (Parser.readApplied options tree op input)
      (Filling.apply options root op input arena) := by
  rw [Parser.readApplied, Filling.apply]
  split
  · rename_i trailing
    obtain ⟨place, after, all, way, right, length, grown, whole, places⟩ := insert_trailing held once trailing
    rw [insert_bind way right]
    have one : added arena after = [arena.length] := by
      unfold added
      rw [length, Nat.add_sub_cancel_left]
      rfl
    exact .ok (.here input (tree.insert op none)) ⟨grown, all, whole, one ▸ places⟩
  · rename_i sided
    obtain ⟨place, after, slot, way, right, opened⟩ := insert_opened held once (Bool.not_eq_true _ ▸ sided)
    rw [insert_bind way right]
    dsimp only
    cases Enclosure.ofOp? op with
    | none =>
      have operand := operand_follows op input after slot opened.new.2
      exact operand.map _ (fun _ _ => opened.builds) fun _ => opened.fails
    | some enclosure =>
      have group := group_follows enclosure input after slot opened.new.2
      refine group.bind (fun chosen middle builds => ?_) fun _ => opened.fails
      have applied := opened.builds builds
      have := chosen.le
      split
      · refine .onward once held.inside applied fun below held once => ?_
        have sided : Op.isTrailing .alternative = false := rfl
        obtain ⟨place, after, slot, way, right, opened⟩ := insert_opened held once sided
        rw [insert_bind way right]
        have operand := operand_follows .alternative chosen.rest after slot opened.new.2
        refine operand.bind (fun other last builds => ?_) fun _ => opened.fails
        exact .ok ((other.map _).widen _) (opened.builds builds)
      · exact .ok ⟨_, chosen.rest, chosen.reached⟩ applied
termination_by 8 * input.size + 4
decreasing_by all_goals omega

end

theorem row_follows (input : Input) (arena : Arena) (root : Nat) (inside : root < arena.length) :
    Follows arena [root] root (Parser.readExpr options input) (Filling.row options root input arena) := by
  have operand := operand_follows options .group input arena root inside
  refine operand.goesOn (List.nodup_singleton root) (by simpa using inside) fun first middle below held once => ?_
  have row := operators_follow options none first.rest middle root below first.value held once
  exact row.goesOn once held.inside fun tree last below held _ => .ok (tree.widen _) ⟨.refl .., below, held,
    by rw [added_self, List.append_nil]⟩

end

end HtmlTemplate.Arena
