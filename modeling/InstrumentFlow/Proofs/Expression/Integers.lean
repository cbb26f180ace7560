import InstrumentFlow.Proofs.Expression.Application
import Mathlib.Algebra.Group.Nat.Defs

/-!
# Arithmetic of integers

Integers have 32 bits and truth values count as 1 and 0. Sums, differences and products wrap around.
Quotients are cut toward zero, and a quotient that does not fit is refused with the same failure as
one by zero.

* `CountsAs` -- the integer that an operand counts as;
* `promote?_eq_int_iff` -- two operands meet as integers exactly if both count as one;
* `exactResult` -- the result that an operation has on whole numbers;
* `Indivisible` -- the divisors that are refused;
* `arithmeticInt?_spec` -- an operation on 32-bit integers, against whole numbers;
* `integer_arithmetic` -- **arithmetic of integers in an expression**;
* `not_refused_only_by_zero` -- a divisor is refused that is not zero.
-/

namespace InstrumentFlow.Expression

open Bytecode

/-! ## 1. Operands -/

/-- **The integer that an operand counts as**: an integer as itself, a truth value as 1 or 0. -/
inductive CountsAs : Value → Int32 → Prop
  | int (i : Int32) : CountsAs (.int i) i
  | boolean (b : Bool) : CountsAs (.boolean b) (if b then 1 else 0)

variable {a b : Value} {x y : Int32}

theorem CountsAs.toInt32 (h : CountsAs a x) : a.toInt32 = x := by cases h <;> rfl

theorem CountsAs.isString (h : CountsAs a x) : a.isString = false := by cases h <;> rfl

theorem promotion_eq_int_iff : Promotion.of? a = some .int ↔ ∃ x, CountsAs a x := by
  constructor
  · intro h
    cases a with
    | int i => exact ⟨i, .int i⟩
    | boolean b => exact ⟨_, .boolean b⟩
    | _ => cases h
  · rintro ⟨x, h⟩
    cases h <;> rfl

/-- **Two operands meet as integers** exactly if both count as one. -/
theorem promote?_eq_int_iff :
    promote? a b = some .int ↔ (∃ x, CountsAs a x) ∧ ∃ y, CountsAs b y := by
  rw [← promotion_eq_int_iff, ← promotion_eq_int_iff]
  unfold promote?
  cases Promotion.of? a with
  | none => simp
  | some p =>
    cases Promotion.of? b with
    | none => simp
    | some q => cases p <;> cases q <;> simp [Promotion.join]

/-! ## 2. Whole numbers -/

/-- **The result that an operation has on whole numbers.** -/
def exactResult (op : Operation) (x y : Int) : Int :=
  match op with
  | .add => x + y
  | .sub => x - y
  | .mul => x * y
  | .div => x.tdiv y
  | _ => x.tmod y

/-- The divisor is refused: it is zero, or the quotient does not fit into 32 bits. -/
def Indivisible (x y : Int32) : Prop := y = 0 ∨ x = Int32.minValue ∧ y = -1

instance : Decidable (Indivisible x y) := inferInstanceAs (Decidable (_ ∨ _))

/-- Where a divisor is not refused the quotient fits. -/
theorem toInt_div (h : ¬ Indivisible x y) : (x / y).toInt = x.toInt.tdiv y.toInt := by
  by_cases hx : x = Int32.minValue
  · have hy : y ≠ -1 := fun hy => h (.inr ⟨hx, hy⟩)
    exact Int32.toInt_div_of_ne_right x y hy
  · exact Int32.toInt_div_of_ne_left x y hx

/-- The remainder is smaller than the divisor and has the sign of the dividend. -/
theorem tmod_spec {m n : Int} (hn : n ≠ 0) :
    m = m.tdiv n * n + m.tmod n ∧ (m.tmod n).natAbs < n.natAbs
      ∧ (0 ≤ m → 0 ≤ m.tmod n) ∧ (m ≤ 0 → m.tmod n ≤ 0) := by
  refine ⟨(Int.tdiv_mul_add_tmod m n).symm, ?_, Int.tmod_nonneg n, fun hm => ?_⟩
  · rw [Int.natAbs_tmod]
    exact Nat.mod_lt _ (Int.natAbs_pos.mpr hn)
  · have hneg : 0 ≤ (-m).tmod n := Int.tmod_nonneg n (by omega)
    rw [Int.neg_tmod] at hneg
    omega

/-! ## 3. Arithmetic of 32 bits -/

section

variable {h : Heap} {op : Operation}

/-- An operation on two operands that count as integers is one on these. -/
theorem binary_of_countsAs (ha : CountsAs a x) (hb : CountsAs b y)
    (hop : op ∈ [.add, .sub, .mul, .div, .mod]) :
    binary h op a b = match arithmeticInt? op x y with
      | some i => .ok (.int i)
      | none => .error (.divisionByZero op) := by
  have harithmetic : binary h op a b = arithmetic op a b := by
    simp only [List.mem_cons, List.not_mem_nil, or_false] at hop
    rcases hop with rfl | rfl | rfl | rfl | rfl
    · unfold binary
      rw [ha.isString, hb.isString]
      rfl
    all_goals rfl
  have hkind : promote? a b = some .int := promote?_eq_int_iff.mpr ⟨⟨x, ha⟩, ⟨y, hb⟩⟩
  rw [harithmetic]
  unfold arithmetic
  rw [hkind]
  show (match arithmeticInt? op a.toInt32 b.toInt32 with
    | some i => (Except.ok (.int i) : Fallible Value)
    | none => .error (.divisionByZero op)) = _
  rw [ha.toInt32, hb.toInt32]

/-- Sums, differences and products are the exact ones, reduced to 32 bits with a sign. -/
theorem arithmeticInt?_wraps (hop : op ∈ [.add, .sub, .mul]) :
    ∃ r, arithmeticInt? op x y = some r
      ∧ r.toInt = (exactResult op x.toInt y.toInt).bmod (2 ^ 32) := by
  simp only [List.mem_cons, List.not_mem_nil, or_false] at hop
  rcases hop with rfl | rfl | rfl
  · exact ⟨x + y, rfl, Int32.toInt_add x y⟩
  · exact ⟨x - y, rfl, Int32.toInt_sub x y⟩
  · exact ⟨x * y, rfl, Int32.toInt_mul x y⟩

theorem arithmeticInt?_div (x y : Int32) :
    arithmeticInt? .div x y = if Indivisible x y then none else some (x / y) := rfl

theorem arithmeticInt?_mod (x y : Int32) :
    arithmeticInt? .mod x y = if Indivisible x y then none else some (x % y) := rfl

/-- A quotient and a remainder are refused for the same divisors. -/
theorem arithmeticInt?_eq_none_iff (hop : op ∈ [.div, .mod]) :
    arithmeticInt? op x y = none ↔ Indivisible x y := by
  simp only [List.mem_cons, List.not_mem_nil, or_false] at hop
  rcases hop with rfl | rfl
  · rw [arithmeticInt?_div]
    split <;> simp [*]
  · rw [arithmeticInt?_mod]
    split <;> simp [*]

end

/-! ## 4. Arithmetic in an expression -/

/-- **Arithmetic of integers in an expression**, wherever the operation stands in it and however the
    two operands count as integers. Sums, differences and products are the exact ones, reduced to 32
    bits with a sign. A divisor is refused, with the failure of a division by zero, exactly if it is
    zero or if it is -1 under the least integer. Otherwise there are a quotient, the exact one cut
    toward zero, and a remainder, which is what is missing, is smaller than the divisor and has the
    sign of the dividend. -/
theorem integer_arithmetic {c : Context} {w : Workspace} {below : List Value}
    (ho : Operands c w a b below) (ha : CountsAs a x) (hb : CountsAs b y) :
    (∀ op ∈ [Operation.add, .sub, .mul], ∃ r,
        step c (operator op) w = leaving w below (.ok (.int r))
        ∧ r.toInt = (exactResult op x.toInt y.toInt).bmod (2 ^ 32))
    ∧ (∀ op ∈ [Operation.div, .mod],
        step c (operator op) w = leaving w below (.error (.divisionByZero op))
          ↔ y = 0 ∨ x = Int32.minValue ∧ y = -1)
    ∧ (¬ Indivisible x y → ∃ q r,
        step c (operator .div) w = leaving w below (.ok (.int q))
        ∧ step c (operator .mod) w = leaving w below (.ok (.int r))
        ∧ q.toInt = x.toInt.tdiv y.toInt
        ∧ x.toInt = q.toInt * y.toInt + r.toInt
        ∧ r.toInt.natAbs < y.toInt.natAbs
        ∧ (0 ≤ x.toInt → 0 ≤ r.toInt) ∧ (x.toInt ≤ 0 → r.toInt ≤ 0)) := by
  have hstep {op : Operation} (hop : op ∈ [Operation.add, .sub, .mul, .div, .mod]) :
      step c (operator op) w = leaving w below (match arithmeticInt? op x y with
        | some i => .ok (.int i)
        | none => .error (.divisionByZero op)) := by
    have harity : op.arity = 2 := by
      simp only [List.mem_cons, List.not_mem_nil, or_false] at hop
      rcases hop with rfl | rfl | rfl | rfl | rfl <;> rfl
    rw [ho.step harity, binary_of_countsAs ha hb hop]
  refine ⟨fun op hop => ?_, fun op hop => ?_, fun hdivisible => ?_⟩
  · obtain ⟨r, hr, hexact⟩ := arithmeticInt?_wraps (x := x) (y := y) hop
    refine ⟨r, ?_, hexact⟩
    rw [hstep (List.mem_append_left [.div, .mod] hop), hr]
  · rw [hstep (List.mem_append_right [.add, .sub, .mul] hop)]
    refine Iff.trans ?_ (arithmeticInt?_eq_none_iff hop)
    cases arithmeticInt? op x y <;> simp [leaving]
  · have hzero : y.toInt ≠ 0 := fun hzero => hdivisible (.inl (Int32.toInt_inj.mp hzero))
    obtain ⟨hsum, hsmaller, hsign⟩ := tmod_spec (m := x.toInt) hzero
    refine ⟨x / y, x % y, ?_, ?_, toInt_div hdivisible, ?_, ?_, ?_⟩
    · rw [hstep (by decide), arithmeticInt?_div, if_neg hdivisible]
    · rw [hstep (by decide), arithmeticInt?_mod, if_neg hdivisible]
    · rw [toInt_div hdivisible, Int32.toInt_mod]
      exact hsum
    · rw [Int32.toInt_mod]
      exact hsmaller
    · rw [Int32.toInt_mod]
      exact hsign

/-- The least integer and a truth value: the difference wraps around, and the quotient fits. -/
theorem integer_arithmetic_least :
    let c := literalContext [] #[.int Int32.minValue]
    let w : Workspace := ⟨{ values := [.boolean true, .global 0, .null], capacity := 3 }, {}⟩
    Operands c w (.int Int32.minValue) (.boolean true) [.null]
    ∧ CountsAs (.int Int32.minValue) Int32.minValue ∧ CountsAs (.boolean true) 1
    ∧ step c (operator .sub) w = leaving w [.null] (.ok (.int Int32.maxValue))
    ∧ step c (operator .div) w = leaving w [.null] (.ok (.int Int32.minValue)) := by
  intro c w
  have ho : Operands c w (.int Int32.minValue) (.boolean true) [.null] :=
    ⟨⟨_, _, rfl, rfl, rfl⟩, by decide⟩
  have ha : CountsAs (.int Int32.minValue) Int32.minValue := .int _
  have hb : CountsAs (.boolean true) 1 := .boolean true
  obtain ⟨hwraps, _, hdivides⟩ := integer_arithmetic ho ha hb
  refine ⟨ho, ha, hb, ?_, ?_⟩
  · obtain ⟨r, hstep, hr⟩ := hwraps .sub (by decide)
    have hmost : r = Int32.maxValue := Int32.toInt_inj.mp (hr.trans (by decide))
    rw [hstep, hmost]
  · obtain ⟨q, r, hstep, _, hq, _⟩ := hdivides (by decide)
    have hleast : q = Int32.minValue := Int32.toInt_inj.mp (hq.trans (by decide))
    rw [hstep, hleast]

/-- **A divisor is refused that is not zero**: the least integer divided by -1, with quotient and
    remainder alike, and the message speaks of a division by zero. -/
theorem not_refused_only_by_zero :
    let c := literalContext [.int Int32.minValue, .int (-1)] #[]
    let w : Workspace := ⟨{ capacity := 20 }, {}⟩
    (-1 : Int32) ≠ 0
    ∧ (∀ op ∈ [Operation.div, .mod],
        evaluate c (encode [.pushConstant 0, .pushConstant 1, operator op]) w
          = .error (.divisionByZero op) w)
    ∧ (EvalError.divisionByZero .div).message
        = "Operation 'div' failed: integer division by zero" := by
  refine ⟨by decide, fun op hop => ?_, rfl⟩
  simp only [List.mem_cons, List.not_mem_nil, or_false] at hop
  rcases hop with rfl | rfl <;> rfl

end InstrumentFlow.Expression
