import HtmlTemplate.Template.Source
import HtmlTemplate.Render.Run
import Mathlib.Data.Int.Bitwise
import Mathlib.Tactic.Positivity

/-! Operators between integers. Each gives the exact result, reduced to 64 bits with a sign; divisions by
zero are refused, and so are shifts by a count that is negative or does not fit into 32 bits. -/

namespace HtmlTemplate.Integers

/-- A number of any size, reduced to 64 bits with a sign. -/
def wrapped (number : Int) : Value := .int (.ofInt number)

theorem int_eq_wrapped {reduced : Int64} {number : Int} (same : reduced.toInt = number.bmod (2 ^ 64)) :
    Value.int reduced = wrapped number := by
  apply congrArg Value.int
  apply Int64.toInt.inj
  simp [same, Int64.size]

/-- What is in the range of 64 bits is left as it is. -/
theorem int_eq_wrapped_of_toInt {reduced : Int64} {number : Int} (exact : reduced.toInt = number) :
    Value.int reduced = wrapped number := by
  apply int_eq_wrapped
  simp [← exact]

/-! Bits. A negative number has infinitely many bits that are set, of which 64 are kept. -/

theorem toInt_of_msb {bits : BitVec 64} (negative : bits.msb = true) :
    bits.toInt = Int.negSucc (~~~bits).toNat := by
  have bound := bits.isLt
  simp only [BitVec.toInt_eq_msb_cond, negative, if_true, BitVec.toNat_not, Int.negSucc_eq]
  omega

theorem testBit_toInt (bits : BitVec 64) (index : Nat) :
    bits.toInt.testBit index = if index < 64 then bits.getLsbD index else bits.msb := by
  cases sign : bits.msb with
  | false =>
    have positive : bits.toInt = Int.ofNat bits.toNat := by simp [BitVec.toInt_eq_msb_cond, sign]
    simp only [positive, Int.testBit, BitVec.testBit_toNat]
    split
    · rfl
    · exact BitVec.getLsbD_of_ge bits index (by omega)
  | true =>
    simp only [toInt_of_msb sign, Int.testBit, BitVec.testBit_toNat, BitVec.getLsbD_not]
    split <;> simp [*]

theorem eq_of_testBit {first second : Int} (same : ∀ index, first.testBit index = second.testBit index) :
    first = second := by
  have differ (positive negative : Nat) :
      ∃ index, (Int.ofNat positive).testBit index ≠ (Int.negSucc negative).testBit index := by
    have unset (number : Nat) (bound : number ≤ max positive negative) :
        number.testBit (max positive negative) = false :=
      Nat.testBit_lt_two_pow (Nat.lt_of_le_of_lt bound Nat.lt_two_pow_self)
    refine ⟨max positive negative, ?_⟩
    simp [Int.testBit, unset positive (Nat.le_max_left ..), unset negative (Nat.le_max_right ..)]
  cases first with
  | ofNat first =>
    cases second with
    | ofNat second => exact congrArg Int.ofNat (Nat.eq_of_testBit_eq same)
    | negSucc second =>
      obtain ⟨index, other⟩ := differ first second
      exact absurd (same index) other
  | negSucc first =>
    cases second with
    | ofNat second =>
      obtain ⟨index, other⟩ := differ second first
      exact absurd (same index).symm other
    | negSucc second =>
      have same (index : Nat) : first.testBit index = second.testBit index := by
        simpa [Int.testBit] using same index
      exact congrArg Int.negSucc (Nat.eq_of_testBit_eq same)

theorem toInt_and (first second : Int64) :
    (first &&& second).toInt = Int.land first.toInt second.toInt := by
  apply eq_of_testBit
  intro index
  simp only [Int.testBit_land, ← Int64.toInt_toBitVec, Int64.toBitVec_and, testBit_toInt]
  split <;> simp

theorem toInt_or (first second : Int64) :
    (first ||| second).toInt = Int.lor first.toInt second.toInt := by
  apply eq_of_testBit
  intro index
  simp only [Int.testBit_lor, ← Int64.toInt_toBitVec, Int64.toBitVec_or, testBit_toInt]
  split <;> simp

theorem toInt_xor (first second : Int64) :
    (first ^^^ second).toInt = Int.xor first.toInt second.toInt := by
  apply eq_of_testBit
  intro index
  simp only [Int.testBit_lxor, ← Int64.toInt_toBitVec, Int64.toBitVec_xor, testBit_toInt]
  split <;> simp

theorem toInt_complement (number : Int64) : (~~~number).toInt = Int.lnot number.toInt := by
  apply eq_of_testBit
  intro index
  simp only [Int.testBit_lnot, ← Int64.toInt_toBitVec, Int64.toBitVec_not, testBit_toInt]
  split <;> simp [*]

/-! Shifts. -/

theorem toNat_count {places : Nat} (within : places < 64) :
    ((Int64.ofNat places).toBitVec.smod 64).toNat = places := by
  have counts : ∀ places : Fin 64, ((Int64.ofNat places).toBitVec.smod 64).toNat = places := by decide
  exact counts ⟨places, within⟩

/-- Multiplying by a power of two from the 64th on leaves no bit. -/
theorem bmod_far (number : Int) {places : Nat} (far : 64 ≤ places) :
    (number * 2 ^ places).bmod (2 ^ 64) = 0 := by
  have divides : (2 ^ 64 : Int) ∣ number * 2 ^ places := Dvd.dvd.mul_left (pow_dvd_pow 2 far) number
  exact Int.bmod_eq_zero_of_dvd (by exact_mod_cast divides)

theorem shiftLeft_exact (number : Int64) (places : Nat) :
    (Value.shiftLeft number places).toInt = (number.toInt * 2 ^ places).bmod (2 ^ 64) := by
  unfold Value.shiftLeft
  split
  · rename_i within
    have shifted : (number <<< Int64.ofNat places).toInt =
        (number.toBitVec.toNat * 2 ^ places : Int).bmod (2 ^ 64) := by
      rw [← Int64.toInt_toBitVec, Int64.toBitVec_shiftLeft, BitVec.shiftLeft_eq', toNat_count within,
        BitVec.toInt_shiftLeft, Nat.shiftLeft_eq]
      push_cast
      rfl
    rw [shifted, ← Int64.toInt_toBitVec, BitVec.toInt_eq_toNat_bmod, Int.bmod_mul_bmod]
  · rename_i far
    rw [bmod_far number.toInt (by omega)]
    rfl

/-- Dividing by a power of two from the 64th on, rounded down, leaves the sign. -/
theorem ediv_far (number : Int64) {places : Nat} (far : 64 ≤ places) :
    number.toInt / 2 ^ places = if number < 0 then -1 else 0 := by
  have power : (2 ^ 64 : Int) ≤ 2 ^ places := pow_le_pow_right₀ (by decide) far
  have low := number.le_toInt
  have high := number.toInt_lt
  simp only [Int64.lt_iff_toInt_lt, Int64.toInt_zero]
  split
  · rw [Int.ediv_eq_iff_of_pos (by omega)]
    omega
  · exact Int.ediv_eq_zero_of_lt (by omega) (by omega)

theorem shiftRight_exact (number : Int64) (places : Nat) :
    (Value.shiftRight number places).toInt = number.toInt.fdiv (2 ^ places) := by
  rw [Int.fdiv_eq_ediv_of_nonneg _ (by positivity)]
  unfold Value.shiftRight
  split
  · rename_i within
    rw [← Int64.toInt_toBitVec, Int64.toBitVec_shiftRight, BitVec.sshiftRight_eq', toNat_count within,
      BitVec.toInt_sshiftRight, Int.shiftRight_eq_div_pow]
    push_cast
    rfl
  · rename_i far
    rw [ediv_far number (by omega)]
    split <;> rfl

theorem shiftCount_eq (count : Int64) :
    Value.shiftCount? count =
      if 0 ≤ count.toInt ∧ count.toInt < 2 ^ 32 then some count.toInt.toNat else none := by
  have same : count.toInt ≤ 0xFFFFFFFF ↔ count.toInt < 2 ^ 32 := by omega
  simp only [Value.shiftCount?, same]

/-! Operators. -/

theorem ok_wrapped {reduced : Int64} {number : Int} (same : reduced.toInt = number.bmod (2 ^ 64)) :
    (.ok (.int reduced) : Except EvalFault Value) = .ok (wrapped number) :=
  congrArg Except.ok (int_eq_wrapped same)

theorem ok_wrapped_of_toInt {reduced : Int64} {number : Int} (exact : reduced.toInt = number) :
    (.ok (.int reduced) : Except EvalFault Value) = .ok (wrapped number) :=
  congrArg Except.ok (int_eq_wrapped_of_toInt exact)

variable (a b : Int64)

theorem divide_exact :
    Value.binary .divide (.int a) (.int b) =
      if b.toInt = 0 then .error .divisionByZero else .ok (wrapped (a.toInt.tdiv b.toInt)) := by
  have zero : b = 0 ↔ b.toInt = 0 := Int64.toInt_inj.symm
  change (if b = 0 then .error .divisionByZero else .ok (.int (a / b)) : Except EvalFault Value) = _
  simp only [zero, ok_wrapped (Int64.toInt_div a b)]

theorem remainder_exact :
    Value.binary .remainder (.int a) (.int b) =
      if b.toInt = 0 then .error .divisionByZero else .ok (wrapped (a.toInt.tmod b.toInt)) := by
  have zero : b = 0 ↔ b.toInt = 0 := Int64.toInt_inj.symm
  change (if b = 0 then .error .divisionByZero else .ok (.int (a % b)) : Except EvalFault Value) = _
  simp only [zero, ok_wrapped_of_toInt (Int64.toInt_mod a b)]

theorem binary_shiftLeft :
    Value.binary .shiftLeft (.int a) (.int b) =
      if 0 ≤ b.toInt ∧ b.toInt < 2 ^ 32 then .ok (wrapped (a.toInt * 2 ^ b.toInt.toNat))
      else .error (.operands .shiftLeft "integer" "integer") := by
  by_cases within : 0 ≤ b.toInt ∧ b.toInt < 2 ^ 32
  · have counted : Value.shiftCount? b = some b.toInt.toNat := by rw [shiftCount_eq, if_pos within]
    rw [if_pos within, Value.binary, Value.integerOperation]
    simp only [Value.isNull, Bool.or_self, Bool.false_eq_true, if_false, Value.asInt?, counted]
    exact ok_wrapped (shiftLeft_exact a _)
  · have counted : Value.shiftCount? b = none := by rw [shiftCount_eq, if_neg within]
    rw [if_neg within, Value.binary, Value.integerOperation]
    simp only [Value.isNull, Bool.or_self, Bool.false_eq_true, if_false, Value.asInt?, counted]
    rfl

theorem binary_shiftRight :
    Value.binary .shiftRight (.int a) (.int b) =
      if 0 ≤ b.toInt ∧ b.toInt < 2 ^ 32 then .ok (wrapped (a.toInt.fdiv (2 ^ b.toInt.toNat)))
      else .error (.operands .shiftRight "integer" "integer") := by
  by_cases within : 0 ≤ b.toInt ∧ b.toInt < 2 ^ 32
  · have counted : Value.shiftCount? b = some b.toInt.toNat := by rw [shiftCount_eq, if_pos within]
    rw [if_pos within, Value.binary, Value.integerOperation]
    simp only [Value.isNull, Bool.or_self, Bool.false_eq_true, if_false, Value.asInt?, counted]
    exact ok_wrapped_of_toInt (shiftRight_exact a _)
  · have counted : Value.shiftCount? b = none := by rw [shiftCount_eq, if_neg within]
    rw [if_neg within, Value.binary, Value.integerOperation]
    simp only [Value.isNull, Bool.or_self, Bool.false_eq_true, if_false, Value.asInt?, counted]
    rfl

/-- Every operator between integers gives the exact result, reduced to 64 bits. Quotients are cut towards
zero and there is none by zero; shifts to the right round down, and a shift needs a count of 32 bits without
a sign. -/
theorem integers_exact :
    Value.binary .add (.int a) (.int b) = .ok (wrapped (a.toInt + b.toInt)) ∧
      Value.binary .subtract (.int a) (.int b) = .ok (wrapped (a.toInt - b.toInt)) ∧
      Value.binary .multiply (.int a) (.int b) = .ok (wrapped (a.toInt * b.toInt)) ∧
      Value.binary .divide (.int a) (.int b) =
        (if b.toInt = 0 then .error .divisionByZero else .ok (wrapped (a.toInt.tdiv b.toInt))) ∧
      Value.binary .remainder (.int a) (.int b) =
        (if b.toInt = 0 then .error .divisionByZero else .ok (wrapped (a.toInt.tmod b.toInt))) ∧
      Value.binary .bitAnd (.int a) (.int b) = .ok (wrapped (Int.land a.toInt b.toInt)) ∧
      Value.binary .bitOr (.int a) (.int b) = .ok (wrapped (Int.lor a.toInt b.toInt)) ∧
      Value.binary .bitXor (.int a) (.int b) = .ok (wrapped (Int.xor a.toInt b.toInt)) ∧
      Value.binary .shiftLeft (.int a) (.int b) =
        (if 0 ≤ b.toInt ∧ b.toInt < 2 ^ 32 then .ok (wrapped (a.toInt * 2 ^ b.toInt.toNat))
          else .error (.operands .shiftLeft "integer" "integer")) ∧
      Value.binary .shiftRight (.int a) (.int b) =
        (if 0 ≤ b.toInt ∧ b.toInt < 2 ^ 32 then .ok (wrapped (a.toInt.fdiv (2 ^ b.toInt.toNat)))
          else .error (.operands .shiftRight "integer" "integer")) ∧
      Value.unary .negate (.int a) = .ok (wrapped (-a.toInt)) ∧
      Value.unary .complement (.int a) = .ok (wrapped (Int.lnot a.toInt)) ∧
      Value.stepped true (.int a) = .ok (wrapped (a.toInt + 1)) ∧
      Value.stepped false (.int a) = .ok (wrapped (a.toInt - 1)) :=
  ⟨ok_wrapped (Int64.toInt_add a b), ok_wrapped (Int64.toInt_sub a b), ok_wrapped (Int64.toInt_mul a b),
    divide_exact a b, remainder_exact a b, ok_wrapped_of_toInt (toInt_and a b),
    ok_wrapped_of_toInt (toInt_or a b), ok_wrapped_of_toInt (toInt_xor a b), binary_shiftLeft a b,
    binary_shiftRight a b, ok_wrapped (Int64.toInt_neg a), ok_wrapped_of_toInt (toInt_complement a),
    ok_wrapped (Int64.toInt_add a 1), ok_wrapped (Int64.toInt_sub a 1)⟩

/-- A shift by more places than 32 bits count, as it stands in a template. -/
def farShift : List Char := "= 1 << 4294967296".toList

theorem farShift_writes :
    (Template.ofSource { pretty := false, stopOnError := false } farShift).toOption.map
      (fun template => (template.run 1 .new .unlimited).2.sink.text) =
        some "<!-- Context error: Invalid operands for '<<': integer and integer -->" := by
  decide +kernel

/-- The count is not negative and the exact result is zero, but the shift is refused. -/
theorem far_shift_refused :
    0 ≤ (4294967296 : Int64).toInt ∧
      wrapped ((1 : Int64).toInt * 2 ^ (4294967296 : Int64).toInt.toNat) = .int 0 ∧
      Value.binary .shiftLeft (.int 1) (.int 4294967296) =
        .error (.operands .shiftLeft "integer" "integer") ∧
      (Template.ofSource { pretty := false, stopOnError := false } farShift).toOption.map
        (fun template => (template.run 1 .new .unlimited).2.sink.text) =
          some "<!-- Context error: Invalid operands for '<<': integer and integer -->" := by
  have far : 64 ≤ (4294967296 : Int64).toInt.toNat := by decide
  have nothing :
      (0 : Int64).toInt = ((1 : Int64).toInt * 2 ^ (4294967296 : Int64).toInt.toNat).bmod (2 ^ 64) := by
    rw [bmod_far _ far]
    rfl
  exact ⟨by decide, (int_eq_wrapped nothing).symm, rfl, farShift_writes⟩

end HtmlTemplate.Integers
