import Formula.Proofs.Refinement
import Formula.Proofs.Settling

/-!
Operators on integers and truth values of any kinds. The machine takes truth values for numbers, but for none that
is equal to an integer; arrays take the operands in the wider of their kinds, and the sum of truth values for their
disjunction. Everywhere else the two come to the same.
-/

namespace Formula

open Machine

namespace Datum

/-- The operators on data of any kinds, with what they come to. -/
def operators : List (Text × (Datum → Datum → Datum)) :=
  strict ++ connectives.map fun entry => (entry.1, fun one two => .bool (entry.2 one.met two.met))

/-- Where arrays come to another number: the sum of true and true is true in an array, and there a truth value is
equal to the number that it counts as. -/
def Astray (symbol : Text) (one two : Datum) : Prop :=
  symbol = Text.ofString "+" ∧ one = .bool true ∧ two = .bool true ∨
    (symbol = Text.ofString "==" ∨ symbol = Text.ofString "!=") ∧ one.kind ≠ two.kind ∧ one.number = two.number

/-- Where arrays have no result: truth values have no difference. -/
def Undone (symbol : Text) (one two : Datum) : Prop :=
  symbol = Text.ofString "-" ∧ one.kind = .bool ∧ two.kind = .bool

instance (symbol : Text) (one two : Datum) : Decidable (Astray symbol one two) := by
  unfold Astray
  infer_instance

instance (symbol : Text) (one two : Datum) : Decidable (Undone symbol one two) := by
  unfold Undone
  infer_instance

/-- Whether arrays come to a datum that fits, the right number exactly where they do not go astray. -/
def Agrees (symbol : Text) (one two exact : Datum) : Prop :=
  ∃ result : Datum, result.Fits ∧ Combines symbol one two result ∧
    (result.number = exact.number ↔ ¬ Astray symbol one two)

theorem agrees_bools {symbol : Text} {function : Datum → Datum → Datum} (listed : (symbol, function) ∈ strict)
    {left right : Bool} (done : ¬ Undone symbol (.bool left) (.bool right)) :
    Agrees symbol (.bool left) (.bool right) (function (.bool left) (.bool right)) := by
  simp only [strict, List.mem_cons, Prod.mk.injEq, List.not_mem_nil, or_false] at listed
  rcases listed with ⟨rfl, rfl⟩ | ⟨rfl, rfl⟩ | ⟨rfl, rfl⟩ | ⟨rfl, rfl⟩ | ⟨rfl, rfl⟩ | ⟨rfl, rfl⟩ | ⟨rfl, rfl⟩ |
    ⟨rfl, rfl⟩ | ⟨rfl, rfl⟩
  · exact ⟨.bool (left || right), trivial, ⟨by decide, by decide, Elementwise.add, rfl, rfl⟩,
      by revert left right; decide⟩
  · exact absurd ⟨rfl, rfl, rfl⟩ done
  · exact ⟨.bool (left && right), trivial, ⟨by decide, by decide, Elementwise.multiply, rfl, rfl⟩,
      by revert left right; decide⟩
  · exact ⟨.bool (left == right), trivial, combines_equality (by decide) left right, by revert left right; decide⟩
  · exact ⟨.bool (left != right), trivial, combines_equality (by decide) left right, by revert left right; decide⟩
  · refine ⟨.bool (left.toNat < right.toNat), trivial, ⟨by decide, by decide, Elementwise.less, rfl, ?_⟩, ?_⟩
    · cases left <;> cases right <;> rfl
    · revert left right; decide
  · refine ⟨.bool (left.toNat ≤ right.toNat), trivial, ⟨by decide, by decide, Elementwise.lessEqual, rfl, ?_⟩, ?_⟩
    · cases left <;> cases right <;> rfl
    · revert left right; decide
  · refine ⟨.bool (right.toNat < left.toNat), trivial, ⟨by decide, by decide, Elementwise.greater, rfl, ?_⟩, ?_⟩
    · cases left <;> cases right <;> rfl
    · revert left right; decide
  · refine ⟨.bool (right.toNat ≤ left.toNat), trivial,
      ⟨by decide, by decide, Elementwise.greaterEqual, rfl, ?_⟩, ?_⟩
    · cases left <;> cases right <;> rfl
    · revert left right; decide

theorem bool_number_inj (one two : Bool) : (Datum.bool one).number = (Datum.bool two).number ↔ one = two := by
  revert one two
  decide

/-- Tests for equality of the numbers and of the data differ where the kinds do and the numbers do not. -/
theorem beq_number {one two : Datum} (wide : one.kind = .int ∨ two.kind = .int) :
    (Datum.int one.number == Datum.int two.number) = (one == two) ↔
      ¬ (one.kind ≠ two.kind ∧ one.number = two.number) := by
  have apart {left right : Int} (kinds : one.kind ≠ two.kind) : (left == right) = false ↔
      ¬ (one.kind ≠ two.kind ∧ left = right) := by
    rw [beq_eq_false_iff_ne]
    exact not_congr ⟨fun same => ⟨kinds, same⟩, And.right⟩
  rw [int_beq]
  cases one with
  | int left =>
      cases two with
      | int right => exact iff_of_true (int_beq left right).symm fun both => both.1 rfl
      | bool right => exact apart nofun
  | bool left =>
      cases two with
      | int right => exact apart nofun
      | bool right => rcases wide with ⟨⟨⟩⟩ | ⟨⟨⟩⟩

/-- Of operands one of which is an integer, only the tests for equality look at the kinds. -/
theorem agrees_wide {symbol : Text} {function : Datum → Datum → Datum} (listed : (symbol, function) ∈ strict)
    {one two : Datum} (fitsOne : one.Fits) (fitsTwo : two.Fits) (fits : (function one two).Fits)
    (wide : one.kind = .int ∨ two.kind = .int) : Agrees symbol one two (function one two) := by
  have combines := combines_promoted listed fitsOne fitsTwo wide
  have right (unequal : ¬ (symbol = Text.ofString "==" ∨ symbol = Text.ofString "!="))
      (same : function (.int one.number) (.int two.number) = function one two) :
      Agrees symbol one two (function one two) := by
    refine ⟨_, fits, same ▸ combines, iff_of_true rfl ?_⟩
    rintro (⟨-, rfl, rfl⟩ | ⟨equal, -, -⟩)
    · rcases wide with ⟨⟨⟩⟩ | ⟨⟨⟩⟩
    · exact unequal equal
  have tested (equal : symbol = Text.ofString "==" ∨ symbol = Text.ofString "!=") :
      Astray symbol one two ↔ one.kind ≠ two.kind ∧ one.number = two.number := by
    constructor
    · rintro (⟨rfl, -⟩ | ⟨-, both⟩)
      · exact absurd equal (by decide)
      · exact both
    · exact fun both => .inr ⟨equal, both⟩
  simp only [strict, List.mem_cons, Prod.mk.injEq, List.not_mem_nil, or_false] at listed
  rcases listed with ⟨rfl, rfl⟩ | ⟨rfl, rfl⟩ | ⟨rfl, rfl⟩ | ⟨rfl, rfl⟩ | ⟨rfl, rfl⟩ | ⟨rfl, rfl⟩ | ⟨rfl, rfl⟩ |
    ⟨rfl, rfl⟩ | ⟨rfl, rfl⟩
  · exact right (by decide) rfl
  · exact right (by decide) rfl
  · exact right (by decide) rfl
  · refine ⟨.bool (int one.number == int two.number), trivial, combines, ?_⟩
    rw [bool_number_inj, beq_number wide, tested (by decide)]
  · refine ⟨.bool !int one.number == int two.number, trivial, combines, ?_⟩
    change (Datum.bool _).number = (Datum.bool !one == two).number ↔ _
    rw [bool_number_inj, Bool.not_inj_iff, beq_number wide, tested (by decide)]
  · exact right (by decide) rfl
  · exact right (by decide) rfl
  · exact right (by decide) rfl
  · exact right (by decide) rfl

/-- Arrays come to what the machine comes to, but for the sum of true and true and the equality across kinds. -/
theorem agrees_operator {symbol : Text} {function : Datum → Datum → Datum} (listed : (symbol, function) ∈ operators)
    {one two : Datum} (fitsOne : one.Fits) (fitsTwo : two.Fits) (fits : (function one two).Fits)
    (done : ¬ Undone symbol one two) : Agrees symbol one two (function one two) := by
  rcases List.mem_append.mp listed with listed | listed
  · cases one with
    | int left => exact agrees_wide listed fitsOne fitsTwo fits (.inl rfl)
    | bool left =>
        cases two with
        | int right => exact agrees_wide listed fitsOne fitsTwo fits (.inr rfl)
        | bool right => exact agrees_bools listed done
  · obtain ⟨⟨word, connect⟩, member, same⟩ := List.mem_map.mp listed
    cases same
    refine ⟨_, fits, combines_connective member fitsOne fitsTwo, iff_of_true rfl ?_⟩
    have other := (by decide : ∀ word ∈ connectives.map (·.1), word ≠ Text.ofString "+" ∧
      ¬ (word = Text.ofString "==" ∨ word = Text.ofString "!=")) _ (List.mem_map_of_mem member)
    rintro (⟨same, -⟩ | ⟨equal, -⟩)
    · exact other.1 same
    · exact other.2 equal

end Datum

/-- An operator between two names. A connective leaves its right operand unevaluated. -/
def operation (symbol left right : Text) : Term :=
  if (Datum.connectives.lookup symbol).isSome then .shortCircuit symbol (.name left) (.name right)
  else .binary symbol (.name left) (.name right)

/-- The graph of an operator between two arguments. -/
def pairGraph (symbol left right : Text) : Graph where
  nodes := #[⟨.argument left, []⟩, ⟨.argument right, []⟩, ⟨.binary symbol, [0, 1]⟩]
  output := 2
  arguments := [left, right]

namespace Lowering

variable {heap : Heap} {names : List Text} {functions : Table} {nodes : Array Node}

theorem lowerProgram_cons {stack after : Stack} {instruction : Instruction} {later : Array Node}
    (came : lowerInstruction heap names functions stack instruction nodes = .ok (after, later)) (rest : Program) :
    lowerProgram heap names functions stack (instruction :: rest) nodes =
      lowerProgram heap names functions after rest later := by
  rw [lowerProgram]
  change (lowerInstruction heap names functions stack instruction nodes >>= _) = _
  rw [came]
  rfl

theorem lower_argument {name : Text} (stack : Stack) (listed : name ∈ names)
    (fresh : nodes.findIdx? (Node.merges ⟨.argument name, []⟩) = none) :
    lowerInstruction heap names functions stack (.name name) nodes =
      .ok (.node nodes.size :: stack, nodes.push ⟨.argument name, []⟩) := by
  change (if name ∈ names then _ else _ : Build Stack) nodes = _
  rw [if_pos listed]
  change (share _ nodes >>= _) = _
  rw [share_apply, fresh]
  rfl

theorem lower_suspended {name : Text} (stack : Stack) (listed : name ∈ names)
    (fresh : nodes.findIdx? (Node.merges ⟨.argument name, []⟩) = none) :
    lowerInstruction heap names functions stack (.nested [.name name]) nodes =
      .ok (.node nodes.size :: stack, nodes.push ⟨.argument name, []⟩) := by
  change (lowerProgram heap names functions [] [.name name] nodes >>= _) = _
  rw [lowerProgram_cons (lower_argument [] listed fresh)]
  rfl

theorem lower_binary {symbol : Text} {left right : Nat} (stack : Stack) (known : symbol ∈ binaryArrayOperators)
    (fresh : nodes.findIdx? (Node.merges ⟨.binary symbol, [left, right]⟩) = none) :
    lowerInstruction heap names functions (.node right :: .node left :: stack) (.binary symbol) nodes =
      .ok (.node nodes.size :: stack, nodes.push ⟨.binary symbol, [left, right]⟩) := by
  change (if symbol ∈ binaryArrayOperators then _ else _ : Build Stack) nodes = _
  rw [if_pos known]
  change (share _ nodes >>= _) = _
  rw [share_apply, fresh]
  rfl

end Lowering

theorem lower_operation {symbol left right : Text} (heap : Heap) (functions : Table)
    (known : symbol ∈ binaryArrayOperators) (apart : left ≠ right) :
    (operation symbol left right).code.lower heap functions [left, right] = .ok (pairGraph symbol left right) := by
  have fresh : (#[⟨.argument left, []⟩] : Array Node).findIdx? (Node.merges ⟨.argument right, []⟩) = none := by
    simp [Node.merges, NodeOperation.merges, apart.symm]
  have whole (operand : Instruction) (pushes : Lowering.lowerInstruction heap [left, right] functions
      [.node 0] operand #[⟨.argument left, []⟩] =
        .ok ([.node 1, .node 0], #[⟨.argument left, []⟩, ⟨.argument right, []⟩])) :
      Program.lower heap functions [left, right] [.name left, operand, .binary symbol] =
        .ok (pairGraph symbol left right) := by
    have steps : Lowering.lowerProgram heap [left, right] functions [] [.name left, operand, .binary symbol] #[] =
        .ok (2, (pairGraph symbol left right).nodes) :=
      (Lowering.lowerProgram_cons (Lowering.lower_argument [] (by simp) (by simp)) _).trans <|
        (Lowering.lowerProgram_cons pushes _).trans <|
        Lowering.lowerProgram_cons (Lowering.lower_binary [] known (by simp [Node.merges])) []
    change (Lowering.lowerProgram heap [left, right] functions [] _ #[] >>= _) = _
    rw [steps]
    rfl
  unfold operation
  split
  · exact whole _ (Lowering.lower_suspended [.node 0] (by simp) fresh)
  · exact whole _ (Lowering.lower_argument [.node 0] (by simp) fresh)

/-- An operator between two names that mean data comes to what it comes to on the data. -/
theorem pushes_operation (frame : Frame) {state : State} {symbol left right : Text}
    {function : Datum → Datum → Datum} {one two : Datum} (operates : (state.dialect frame.dialect).Operates)
    (foundLeft : lookup frame left state = some (.ok one.value, state))
    (foundRight : lookup frame right state = some (.ok two.value, state))
    (listed : (symbol, function) ∈ Datum.operators) :
    Pushes frame state (operation symbol left right).code [(function one two).value] := by
  have pushesLeft := Pushes.name foundLeft
  have pushesRight := Pushes.name foundRight
  unfold operation
  rcases List.mem_append.mp listed with listed | listed
  · have strict := (by decide : ∀ word ∈ Datum.strict.map (·.1), ¬ (Datum.connectives.lookup word).isSome) _
      (List.mem_map_of_mem listed)
    rw [if_neg strict]
    exact pushes_operator ⟨operates, nofun⟩ (Datum.gives_strict listed one two) pushesLeft pushesRight
  · obtain ⟨⟨word, connect⟩, member, same⟩ := List.mem_map.mp listed
    cases same
    have connects := (by decide : ∀ word ∈ Datum.connectives.map (·.1), (Datum.connectives.lookup word).isSome) _
      (List.mem_map_of_mem member)
    rw [if_pos connects]
    have truth (datum : Datum) : state.heap.truth datum.value = datum.met := by cases datum <;> rfl
    have connected := pushes_connective member pushesLeft pushesRight (by cases two <;> rfl)
    rwa [truth, truth] at connected

theorem simplify_operation {session : Session} {dialect depth : Nat} (symbol left right : Text) :
    (operation symbol left right).code.simplify (perform depth) dialect [] session.state =
      some (.ok (operation symbol left right).code, session.state) := by
  have fixed : Simplification.Fixed session.state.heap [] [] (operation symbol left right).code := by
    unfold operation
    split
    · exact .stopped rfl (.nested (.stopped rfl (.nil [])) (.stopped Nat.zero_lt_two (.nil [])))
    · exact .stopped rfl (.stopped rfl (.stopped Nat.zero_lt_two (.nil [])))
  exact Simplification.simplifyFrom_fixed fixed

theorem run_pair {symbol left right : Text} {operation : BinaryOperation}
    (known : Elementwise.binary? symbol = some operation) (other : symbol ≠ Text.ofString "^") (apart : left ≠ right)
    (one two : Argument) : (pairGraph symbol left right).run [one, two] = (do
      let first ← one.toTensor
      let second ← two.toTensor
      first.applyBinary operation second) := by
  have first : List.lookup left [(right, two), (left, one)] = some one := by
    rw [List.lookup_cons, beq_false_of_ne apart]
    exact List.lookup_cons_self
  have second : List.lookup right [(right, two), (left, one)] = some two := List.lookup_cons_self
  simp only [pairGraph, Graph.run, Graph.runWith, Graph.runNodes, Graph.runNode, Graph.nodeTensor]
  simp [first, second, other, known, Graph.inputOf]

theorem ofConstant_unfit {datum : Datum} (unfit : ¬ datum.Fits) (tensor : Tensor) :
    Tensor.ofConstant (.scalar datum.scalar) ≠ .ok tensor := by
  cases datum with
  | bool truth => exact absurd trivial unfit
  | int number =>
      have refused : Tensor.element? (.int number) = refuseArrays := if_neg unfit
      change (Tensor.elementOf .int (.int number)).map Tensor.scalar ≠ _
      change ((Tensor.element? (.int number)).map (·.widen .int)).map Tensor.scalar ≠ _
      rw [refused]
      nofun

/-- Arrays take no integer that does not fit, and no difference of truth values. -/
theorem accepted_of_run {symbol left right : Text} {function : Datum → Datum → Datum} {one two : Datum}
    {tensor : Tensor} (listed : (symbol, function) ∈ Datum.operators) (apart : left ≠ right)
    (came : (pairGraph symbol left right).run [.scalar one.scalar, .scalar two.scalar] = .ok tensor) :
    one.Fits ∧ two.Fits ∧ ¬ Datum.Undone symbol one two := by
  obtain ⟨other, held⟩ := (by decide : ∀ word ∈ Datum.operators.map (·.1),
    word ≠ Text.ofString "^" ∧ (Elementwise.binary? word).isSome = true) _ (List.mem_map_of_mem listed)
  obtain ⟨operation, known⟩ := Option.isSome_iff_exists.mp held
  rw [run_pair known other apart, Argument.toTensor, Argument.toTensor] at came
  have fits {datum : Datum} {tensor : Tensor} (whole : Tensor.ofConstant (.scalar datum.scalar) = .ok tensor) :
      datum.Fits := by
    by_contra unfit
    exact ofConstant_unfit unfit tensor whole
  cases first : Tensor.ofConstant (.scalar one.scalar) with
  | error failure => rw [first] at came; cases came
  | ok left =>
      cases second : Tensor.ofConstant (.scalar two.scalar) with
      | error failure => rw [first, second] at came; cases came
      | ok right =>
          refine ⟨fits first, fits second, ?_⟩
          rintro ⟨rfl, boolOne, boolTwo⟩
          cases known
          cases one with
          | int number => cases boolOne
          | bool truth =>
              cases two with
              | int number => cases boolTwo
              | bool other => cases came

/-- The graph of an operator has a result exactly where its operands fit and arrays have one. -/
theorem run_operation {symbol left right : Text} {function : Datum → Datum → Datum} {one two : Datum}
    (listed : (symbol, function) ∈ Datum.operators) (apart : left ≠ right) (fits : (function one two).Fits) :
    ((∃ tensor, (pairGraph symbol left right).run [.scalar one.scalar, .scalar two.scalar] = .ok tensor) ↔
        one.Fits ∧ two.Fits ∧ ¬ Datum.Undone symbol one two) ∧
      ∀ tensor, (pairGraph symbol left right).run [.scalar one.scalar, .scalar two.scalar] = .ok tensor →
        ∃ result : Datum, result.Fits ∧ tensor = .scalar result.element ∧
          (result.number = (function one two).number ↔ ¬ Datum.Astray symbol one two) := by
  have comes (accepted : one.Fits ∧ two.Fits ∧ ¬ Datum.Undone symbol one two) : ∃ result : Datum,
      result.Fits ∧
      (pairGraph symbol left right).run [.scalar one.scalar, .scalar two.scalar] = .ok (.scalar result.element) ∧
      (result.number = (function one two).number ↔ ¬ Datum.Astray symbol one two) := by
    obtain ⟨fitsOne, fitsTwo, done⟩ := accepted
    obtain ⟨result, inside, ⟨-, other, operation, known, applied⟩, agrees⟩ :=
      Datum.agrees_operator listed fitsOne fitsTwo fits done
    refine ⟨result, inside, ?_, agrees⟩
    rw [run_pair known other apart, Argument.toTensor, Argument.toTensor, Datum.ofConstant_scalar fitsOne,
      Datum.ofConstant_scalar fitsTwo]
    exact applied
  refine ⟨⟨?_, fun accepted => ?_⟩, fun tensor came => ?_⟩
  · exact fun ⟨tensor, came⟩ => accepted_of_run listed apart came
  · obtain ⟨result, -, came, -⟩ := comes accepted
    exact ⟨_, came⟩
  · obtain ⟨result, inside, same, agrees⟩ := comes (accepted_of_run listed apart came)
    exact ⟨result, inside, Except.ok.inj (came.symm.trans same), agrees⟩

end Formula
