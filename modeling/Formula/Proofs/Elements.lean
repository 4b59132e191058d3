import Formula.Graph.Run
import Formula.Lowering
import Formula.Proofs.Typing

/-!
Arrays of one element: the element-wise operations on integers that fit in 32 bits and on truth values
give what exact arithmetic gives, as long as that fits as well.
-/

namespace Formula

namespace Datum

/-- An integer that fits is the one that its element stands for. -/
theorem toInt_ofInt {number : Int} (fits : (Datum.int number).Fits) :
    (Int32.ofInt number).toInt = number :=
  Int32.toInt_ofInt_of_le fits.1 fits.2

theorem ofInt_lt {left right : Int} (fitsLeft : (Datum.int left).Fits)
    (fitsRight : (Datum.int right).Fits) : Int32.ofInt left < Int32.ofInt right ↔ left < right := by
  rw [Int32.lt_iff_toInt_lt, toInt_ofInt fitsLeft, toInt_ofInt fitsRight]

theorem ofInt_le {left right : Int} (fitsLeft : (Datum.int left).Fits)
    (fitsRight : (Datum.int right).Fits) : Int32.ofInt left ≤ Int32.ofInt right ↔ left ≤ right := by
  rw [Int32.le_iff_toInt_le, toInt_ofInt fitsLeft, toInt_ofInt fitsRight]

theorem ofInt_inj {left right : Int} (fitsLeft : (Datum.int left).Fits)
    (fitsRight : (Datum.int right).Fits) : Int32.ofInt left = Int32.ofInt right ↔ left = right := by
  rw [← Int32.toInt_inj, toInt_ofInt fitsLeft, toInt_ofInt fitsRight]

/-- A datum that fits becomes a tensor of its element. -/
theorem ofConstant_scalar {datum : Datum} (fits : datum.Fits) :
    Tensor.ofConstant (.scalar datum.scalar) = .ok (.scalar datum.element) := by
  cases datum with
  | bool truth => rfl
  | int number =>
      have held : Tensor.element? (.int number) = .ok (.int (Int32.ofInt number)) := if_pos fits
      change (Tensor.elementOf .int (.int number)).map Tensor.scalar = _
      change ((Tensor.element? (.int number)).map (·.widen .int)).map Tensor.scalar = _
      rw [held]
      rfl

/-- An operator with one operand is one that arrays know, and gives the element of its result. -/
theorem element_unary {symbol : Text} {datum result : Datum} (known : datum.unary? symbol = some result)
    (fits : datum.Fits) : symbol ∈ unaryArrayOperators ∧
      ∃ operation, Elementwise.unary? symbol = some operation ∧
        (Tensor.scalar datum.element).applyUnary operation = .ok (.scalar result.element) := by
  cases datum with
  | int number =>
      obtain ⟨function, held, rfl⟩ := Option.map_eq_some_iff.mp known
      have listed := mem_of_lookup held
      simp only [integerFunctions, List.mem_cons, Prod.mk.injEq, List.not_mem_nil, or_false] at listed
      rcases listed with ⟨rfl, rfl⟩ | ⟨rfl, rfl⟩ | ⟨rfl, rfl⟩
      · refine ⟨by decide, Elementwise.negate, rfl, ?_⟩
        rw [element, element, Int32.ofInt_neg]
        rfl
      · exact ⟨by decide, Elementwise.identity, rfl, rfl⟩
      · refine ⟨by decide, Elementwise.magnitude, rfl, ?_⟩
        have size : Int32.ofInt number.natAbs =
            if Int32.ofInt number < 0 then -Int32.ofInt number else Int32.ofInt number := by
          have zero : Int32.ofInt number < 0 ↔ number < 0 := ofInt_lt fits (by decide : Fits (.int 0))
          by_cases negative : number < 0
          · rw [if_pos (zero.mpr negative), ← Int32.ofInt_neg]
            congr 1
            omega
          · rw [if_neg (mt zero.mp negative)]
            congr 1
            omega
        rw [element, element, size]
        rfl
  | bool truth =>
      rw [unary?] at known
      split at known
      · rename_i same
        cases known
        subst same
        exact ⟨by decide, Elementwise.logicalNot, rfl, rfl⟩
      · cases known

/-- An operator with two operands that arrays know and that gives the element of its result. -/
def Combines (symbol : Text) (one two result : Datum) : Prop :=
  symbol ∈ binaryArrayOperators ∧ symbol ≠ Text.ofString "^" ∧
    ∃ operation, Elementwise.binary? symbol = some operation ∧
      (Tensor.scalar one.element).applyBinary operation (.scalar two.element) =
        .ok (.scalar result.element)

/-- Whether an operation takes a truth value beside an integer for an integer. -/
def Promotes (operation : BinaryOperation) : Prop := ∀ (truth : Bool) (number : Int32),
  (Tensor.scalar (.bool truth)).applyBinary operation (.scalar (.int number)) =
      (Tensor.scalar (.int (Element.bool truth).toInt)).applyBinary operation (.scalar (.int number)) ∧
    (Tensor.scalar (.int number)).applyBinary operation (.scalar (.bool truth)) =
      (Tensor.scalar (.int number)).applyBinary operation (.scalar (.int (Element.bool truth).toInt))

theorem toInt_bool (truth : Bool) : (Element.bool truth).toInt = Int32.ofInt (Datum.bool truth).number := by
  cases truth <;> rfl

/-- On data that fit, an operation that promotes gives what it gives on the numbers that they count as. -/
theorem Promotes.applyBinary_wide {operation : BinaryOperation} (promotes : Promotes operation) {one two : Datum}
    (wide : one.kind = .int ∨ two.kind = .int) :
    (Tensor.scalar one.element).applyBinary operation (.scalar two.element) =
      (Tensor.scalar (Datum.int one.number).element).applyBinary operation
        (.scalar (Datum.int two.number).element) := by
  cases one with
  | int left =>
      cases two with
      | int right => rfl
      | bool right => exact (promotes right _).2.trans (by rw [toInt_bool]; rfl)
  | bool left =>
      cases two with
      | int right => exact (promotes left _).1.trans (by rw [toInt_bool]; rfl)
      | bool right => rcases wide with ⟨⟨⟩⟩ | ⟨⟨⟩⟩

/-- The operation of an operator that works out both operands. -/
theorem element_strict {symbol : Text} {function : Datum → Datum → Datum} (listed : (symbol, function) ∈ strict) :
    symbol ∈ binaryArrayOperators ∧ symbol ≠ Text.ofString "^" ∧
      ∃ operation, Elementwise.binary? symbol = some operation ∧ Promotes operation ∧
        ∀ left right, (Datum.int left).Fits → (Datum.int right).Fits →
          (Tensor.scalar (Datum.int left).element).applyBinary operation (.scalar (Datum.int right).element) =
            .ok (.scalar (function (.int left) (.int right)).element) := by
  have compared {left right : Int} {onInts : Int32 → Int32 → Bool} (onFloats : Float32 → Float32 → Bool)
      {truth : Bool} (agrees : onInts (Int32.ofInt left) (Int32.ofInt right) = truth) :
      (Tensor.scalar (Datum.int left).element).applyBinary (Elementwise.comparison onInts onFloats)
        (.scalar (Datum.int right).element) = .ok (.scalar (Datum.bool truth).element) :=
    agrees ▸ rfl
  have same {left right : Int} (fitsLeft : (Datum.int left).Fits) (fitsRight : (Datum.int right).Fits) :
      (Int32.ofInt left == Int32.ofInt right) = (Datum.int left == Datum.int right) := by
    rw [int_beq, Bool.eq_iff_iff, beq_iff_eq, beq_iff_eq, ofInt_inj fitsLeft fitsRight]
  simp only [strict, List.mem_cons, Prod.mk.injEq, List.not_mem_nil, or_false] at listed
  rcases listed with ⟨rfl, rfl⟩ | ⟨rfl, rfl⟩ | ⟨rfl, rfl⟩ | ⟨rfl, rfl⟩ | ⟨rfl, rfl⟩ | ⟨rfl, rfl⟩ | ⟨rfl, rfl⟩ |
    ⟨rfl, rfl⟩ | ⟨rfl, rfl⟩
  · refine ⟨by decide, by decide, Elementwise.add, rfl, fun _ _ => ⟨rfl, rfl⟩, fun left right _ _ => ?_⟩
    rw [element, element, element, number, number, Int32.ofInt_add]
    rfl
  · refine ⟨by decide, by decide, Elementwise.subtract, rfl, fun _ _ => ⟨rfl, rfl⟩, fun left right _ _ => ?_⟩
    rw [element, element, element, number, number, Int32.ofInt_sub]
    rfl
  · refine ⟨by decide, by decide, Elementwise.multiply, rfl, fun _ _ => ⟨rfl, rfl⟩, fun left right _ _ => ?_⟩
    rw [element, element, element, number, number, Int32.ofInt_mul]
    rfl
  · exact ⟨by decide, by decide, Elementwise.equal, rfl, fun _ _ => ⟨rfl, rfl⟩,
      fun left right fitsLeft fitsRight => compared _ (same fitsLeft fitsRight)⟩
  · exact ⟨by decide, by decide, Elementwise.unequal, rfl, fun _ _ => ⟨rfl, rfl⟩,
      fun left right fitsLeft fitsRight => compared _ (congrArg not (same fitsLeft fitsRight))⟩
  · exact ⟨by decide, by decide, Elementwise.less, rfl, fun _ _ => ⟨rfl, rfl⟩,
      fun left right fitsLeft fitsRight => compared _ (decide_eq_decide.mpr (ofInt_lt fitsLeft fitsRight))⟩
  · exact ⟨by decide, by decide, Elementwise.lessEqual, rfl, fun _ _ => ⟨rfl, rfl⟩,
      fun left right fitsLeft fitsRight => compared _ (decide_eq_decide.mpr (ofInt_le fitsLeft fitsRight))⟩
  · exact ⟨by decide, by decide, Elementwise.greater, rfl, fun _ _ => ⟨rfl, rfl⟩,
      fun left right fitsLeft fitsRight => compared _ (decide_eq_decide.mpr (ofInt_lt fitsRight fitsLeft))⟩
  · exact ⟨by decide, by decide, Elementwise.greaterEqual, rfl, fun _ _ => ⟨rfl, rfl⟩,
      fun left right fitsLeft fitsRight => compared _ (decide_eq_decide.mpr (ofInt_le fitsRight fitsLeft))⟩

theorem fits_number {datum : Datum} (fits : datum.Fits) : (Datum.int datum.number).Fits := by
  cases datum with
  | int number => exact fits
  | bool truth => cases truth <;> decide

/-- Of two operands one of which is an integer, arrays take both for integers. -/
theorem combines_promoted {symbol : Text} {function : Datum → Datum → Datum}
    (listed : (symbol, function) ∈ strict) {one two : Datum} (fitsOne : one.Fits) (fitsTwo : two.Fits)
    (wide : one.kind = .int ∨ two.kind = .int) :
    Combines symbol one two (function (.int one.number) (.int two.number)) := by
  obtain ⟨known, other, operation, held, promotes, combined⟩ := element_strict listed
  exact ⟨known, other, operation, held,
    (promotes.applyBinary_wide wide).trans (combined _ _ (fits_number fitsOne) (fits_number fitsTwo))⟩

theorem combines_equality {symbol : Text} {function : Bool → Bool → Bool}
    (listed : (symbol, function) ∈ equalities) (left right : Bool) :
    Combines symbol (.bool left) (.bool right) (.bool (function left right)) := by
  simp only [equalities, List.mem_cons, Prod.mk.injEq, List.not_mem_nil, or_false] at listed
  rcases listed with ⟨rfl, rfl⟩ | ⟨rfl, rfl⟩
  · refine ⟨by decide, by decide, Elementwise.equal, rfl, ?_⟩
    cases left <;> cases right <;> rfl
  · refine ⟨by decide, by decide, Elementwise.unequal, rfl, ?_⟩
    cases left <;> cases right <;> rfl

theorem combines_binary {symbol : Text} {one two result : Datum}
    (known : one.binary? symbol two = some result) (fitsOne : one.Fits) (fitsTwo : two.Fits) :
    Combines symbol one two result := by
  cases one with
  | int left =>
      cases two with
      | bool right => cases known
      | int right =>
          obtain ⟨function, listed, rfl⟩ := strict_of_binary known
          exact combines_promoted listed fitsOne fitsTwo (.inl rfl)
  | bool left =>
      cases two with
      | int right => cases known
      | bool right =>
          obtain ⟨function, held, rfl⟩ := Option.map_eq_some_iff.mp known
          exact combines_equality (mem_of_lookup held) left right

/-- An element counts as met where its datum does. -/
theorem truth_element {datum : Datum} (fits : datum.Fits) : datum.element.truth = datum.met := by
  cases datum with
  | bool truth => rfl
  | int number =>
      have zero : Int32.ofInt number = 0 ↔ number = 0 := ofInt_inj fits (by decide : Fits (.int 0))
      change (Int32.ofInt number != 0) = (number != 0)
      rw [Bool.eq_iff_iff, bne_iff_ne, bne_iff_ne, ne_eq, ne_eq, zero]

theorem combines_connective {symbol : Text} {function : Bool → Bool → Bool}
    (listed : (symbol, function) ∈ connectives) {one two : Datum} (fitsOne : one.Fits) (fitsTwo : two.Fits) :
    Combines symbol one two (.bool (function one.met two.met)) := by
  simp only [connectives, List.mem_cons, Prod.mk.injEq, List.not_mem_nil, or_false] at listed
  rw [← truth_element fitsOne, ← truth_element fitsTwo]
  rcases listed with ⟨rfl, rfl⟩ | ⟨rfl, rfl⟩
  · exact ⟨by decide, by decide, Elementwise.conjunction, rfl, rfl⟩
  · exact ⟨by decide, by decide, Elementwise.disjunction, rfl, rfl⟩

/-- The arm that a condition selects, of two arms of one kind. -/
theorem choose_elements (met : Bool) {one two : Datum} (alike : one.kind = two.kind) :
    Tensor.choose (.scalar (.bool met)) (.scalar one.element) (.scalar two.element) =
      .ok (.scalar (if met then one else two).element) := by
  cases one <;> cases two <;> first | cases alike; done | cases met <;> rfl

theorem applyBinary_extremum {onInts : Int32 → Int32 → Bool} {onFloats : Float32 → Float32 → Float32}
    {left right best : Int} (either : best = left ∨ best = right)
    (chooses : onInts (Int32.ofInt left) (Int32.ofInt right) = decide (best = left)) :
    (Tensor.scalar (Datum.int left).element).applyBinary (Elementwise.extremum onInts onFloats)
        (.scalar (Datum.int right).element) = .ok (.scalar (Datum.int best).element) := by
  have chosen : (if onInts (Int32.ofInt left) (Int32.ofInt right) then Int32.ofInt left
      else Int32.ofInt right) = Int32.ofInt best := by
    rw [chooses]
    grind
  rw [element, element, element, ← chosen]
  rfl

/-- The extremum of two elements, which is one of them. -/
theorem element_extremum {name : Text} {function : Int → Int → Int}
    (listed : (name, function) ∈ extrema) : name ∈ arrayFunctions ∧ name ≠ Text.ofString "sum" ∧
      ∃ operation, Graph.extremumFunction? name = some operation ∧ ∀ left right,
        (Datum.int left).Fits → (Datum.int right).Fits → (Datum.int (function left right)).Fits ∧
          (Tensor.scalar (Datum.int left).element).applyBinary operation
              (.scalar (Datum.int right).element) =
            .ok (.scalar (Datum.int (function left right)).element) := by
  simp only [extrema, List.mem_cons, Prod.mk.injEq, List.not_mem_nil, or_false] at listed
  rcases listed with ⟨rfl, rfl⟩ | ⟨rfl, rfl⟩
  · refine ⟨by decide, by decide, Elementwise.minimum, rfl, fun left right fitsLeft fitsRight => ?_⟩
    have either : min left right = left ∨ min left right = right := by omega
    refine ⟨by rcases either with same | same <;> rwa [same], applyBinary_extremum either ?_⟩
    rw [decide_eq_decide, ofInt_le fitsLeft fitsRight]
    omega
  · refine ⟨by decide, by decide, Elementwise.maximum, rfl, fun left right fitsLeft fitsRight => ?_⟩
    have either : max left right = left ∨ max left right = right := by omega
    refine ⟨by rcases either with same | same <;> rwa [same], applyBinary_extremum either ?_⟩
    rw [decide_eq_decide, ge_iff_le, ofInt_le fitsRight fitsLeft]
    omega

end Datum

end Formula
