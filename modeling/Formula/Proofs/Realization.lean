import Formula.Proofs.Coding
import Formula.Proofs.Elements
import Formula.Proofs.Merging
import Formula.Proofs.Running
import Formula.Proofs.Translation

/-!
Graphs of expressions of integers and truth values: lowering never refuses such an expression, and every
node that it adds, also for an operand that a program would skip, can be worked out.
-/

namespace Formula

/-- Whether the values of the nodes at some positions are these. -/
def Found (values : Array Reading) : List Nat → List Reading → Prop :=
  List.Forall₂ fun position reading => values[position]? = some reading

/-- Nodes with their values, each worked out from the values of others. -/
structure Worked (given : List (Text × Argument)) (nodes : Array Node) (values : Array Reading) :
    Prop where
  size : values.size = nodes.size
  ran : ∀ count, nodes.size ≤ count →
    Graph.runNodes (Graph.runNode given true) count nodes.toList #[] = .ok values
  each : ∀ (position : Nat) (node : Node), nodes[position]? = some node → ∃ inputs value,
    Found values node.inputs inputs ∧ values[position]? = some value ∧
      Graph.runNode given true node.operation (inputs.map some) = .ok value

/-- Whether the values of some nodes are still there. -/
def Kept (values later : Array Reading) : Prop :=
  ∀ (position : Nat) (reading : Reading), values[position]? = some reading →
    later[position]? = some reading

/-- Whether a node has the element of a datum for its value. -/
def Standing (values : Array Reading) (position : Nat) (datum : Datum) : Prop :=
  ∃ reading : Reading, values[position]? = some reading ∧ reading.tensor = .scalar datum.element

theorem Kept.refl (values : Array Reading) : Kept values values := fun _ _ found => found

theorem Kept.trans {values between later : Array Reading} (first : Kept values between)
    (second : Kept between later) : Kept values later :=
  fun position reading found => second position reading (first position reading found)

theorem Kept.push (values : Array Reading) (value : Reading) : Kept values (values.push value) :=
  fun _ _ found => Graph.getElem?_push_some value found

theorem Standing.later {values later : Array Reading} {position : Nat} {datum : Datum}
    (standing : Standing values position datum) (kept : Kept values later) :
    Standing later position datum := by
  obtain ⟨reading, found, element⟩ := standing
  exact ⟨reading, kept position reading found, element⟩

theorem Found.later {values later : Array Reading} {positions : List Nat} {readings : List Reading}
    (found : Found values positions readings) (kept : Kept values later) :
    Found later positions readings := found.imp fun position reading => kept position reading

theorem Found.inside {values : Array Reading} {positions : List Nat} {readings : List Reading}
    (found : Found values positions readings) : ∀ position ∈ positions, position < values.size := by
  induction found with
  | nil => nofun
  | cons first _ ih =>
      exact List.forall_mem_cons.mpr ⟨(Array.getElem?_eq_some_iff.mp first).1, ih⟩

theorem Found.unique {values : Array Reading} {positions : List Nat} {readings others : List Reading}
    (found : Found values positions readings) (again : Found values positions others) :
    readings = others :=
  List.right_unique_forall₂' (fun _ _ _ first second => Option.some.inj (first.symm.trans second))
    found again

namespace Graph

theorem runNodes_append {α : Type} (meaning : NodeOperation → List (Option α) → Except Failure α)
    (count : Nat) (first second : List Node) (values : Array α) :
    runNodes meaning count (first ++ second) values =
      runNodes meaning count first values >>= runNodes meaning count second := by
  induction first generalizing values with
  | nil => exact (pure_bind _ _).symm
  | cons node rest ih => simp only [List.cons_append, runNodes, ih, bind_assoc]

end Graph

namespace Worked

variable {given : List (Text × Argument)} {nodes : Array Node} {values : Array Reading}

theorem empty (given : List (Text × Argument)) : Worked given #[] #[] :=
  ⟨rfl, fun _ _ => rfl, by rintro position node ⟨⟩⟩

theorem push (worked : Worked given nodes values) {node : Node} {inputs : List Reading} {value : Reading}
    (found : Found values node.inputs inputs)
    (ran : Graph.runNode given true node.operation (inputs.map some) = .ok value) :
    Worked given (nodes.push node) (values.push value) where
  size := by simp [worked.size]
  ran count fits := by
    rw [Array.size_push] at fits
    have total : values.size ≤ count := worked.size ▸ Nat.le_of_succ_le fits
    obtain ⟨again, known, read⟩ := Graph.mapM_inputOf total found.inside
    obtain rfl := found.unique known
    rw [Array.toList_push, Graph.runNodes_append, worked.ran count (by omega)]
    change (node.inputs.mapM (Graph.inputOf count values) >>= fun inputs =>
      Graph.runNode given true node.operation inputs >>= fun value =>
        Graph.runNodes (Graph.runNode given true) count [] (values.push value)) = _
    rw [read]
    change (Graph.runNode given true node.operation (inputs.map some) >>= _) = _
    rw [ran]
    rfl
  each := by
    intro position other there
    rw [Array.getElem?_push] at there
    split at there
    · rename_i last
      cases there
      refine ⟨inputs, value, found.later (.push values value), ?_, ran⟩
      rw [last, ← worked.size, Array.getElem?_push_size]
    · obtain ⟨known, reading, foundKnown, kept, ranKnown⟩ := worked.each position other there
      exact ⟨known, reading, foundKnown.later (.push values value), Kept.push values value _ _ kept,
        ranKnown⟩

end Worked

/-- Whether an operation is merged with itself only. -/
def NodeOperation.Single (operation : NodeOperation) : Prop :=
  ∀ other, operation.merges other = true → operation = other

theorem NodeOperation.Single.of_ne {operation : NodeOperation}
    (other : ∀ constant, operation ≠ .constant constant) : operation.Single := by
  intro kept merged
  rcases eq_of_merges merged with same | ⟨given, -, constant, -⟩
  · exact same
  · exact absurd constant (other given)

theorem Datum.single_constant (datum : Datum) :
    (NodeOperation.constant (.scalar datum.scalar)).Single := by
  intro kept merged
  cases kept with
  | constant constant =>
      cases constant with
      | scalar scalar =>
          have both := Bool.and_eq_true_iff.mp merged
          cases datum with
          | int number =>
              cases scalar with
              | int other =>
                  have order : (some (compare number other) == some Ordering.eq) = true := both.2
                  rw [Int.compare_eq_eq.mp (Option.some.inj (beq_iff_eq.mp order))]
                  rfl
              | _ => cases both.1
          | bool truth =>
              cases scalar with
              | bool other =>
                  have order := both.2
                  cases truth <;> cases other <;> first | rfl | cases order
              | _ => cases both.1
      | _ => cases datum <;> cases merged
  | _ => cases merged

namespace Lowering

variable {α β : Type} {given : List (Text × Argument)} {nodes : Array Node} {values : Array Reading}

/-- A computation that succeeds and leaves nodes that are worked out, with those that were there. -/
def Reaches (given : List (Text × Argument)) (nodes : Array Node) (values : Array Reading)
    (build : Build α) (post : α → Array Reading → Prop) : Prop :=
  ∃ result after later, build nodes = .ok (result, after) ∧ Worked given after later ∧
    Kept values later ∧ post result later

theorem reaches_pure (worked : Worked given nodes values) {post : α → Array Reading → Prop}
    {result : α} (holds : post result values) : Reaches given nodes values (pure result) post :=
  ⟨result, nodes, values, rfl, worked, .refl values, holds⟩

theorem reaches_bind {post : α → Array Reading → Prop} {final : β → Array Reading → Prop}
    {build : Build α} {next : α → Build β} (first : Reaches given nodes values build post)
    (follows : ∀ result after later, Worked given after later → Kept values later → post result later →
      Reaches given after later (next result) final) :
    Reaches given nodes values (build >>= next) final := by
  obtain ⟨result, after, later, came, worked, kept, holds⟩ := first
  obtain ⟨last, ending, final, cameLast, workedLast, keptLast, holdsLast⟩ :=
    follows result after later worked kept holds
  refine ⟨last, ending, final, ?_, workedLast, kept.trans keptLast, holdsLast⟩
  change (build nodes >>= fun outcome => next outcome.1 outcome.2) = _
  rw [came]
  exact cameLast

/-- A node whose inputs are there is worked out, whether it is shared or new. -/
theorem reaches_share (worked : Worked given nodes values) {operation : NodeOperation}
    {positions : List Nat} {inputs : List Reading} {tensor : Tensor} (single : operation.Single)
    (found : Found values positions inputs)
    (ran : Graph.nodeTensor given operation (inputs.map some) = .ok tensor) {datum : Datum}
    (element : tensor = .scalar datum.element) :
    Reaches given nodes values (share ⟨operation, positions⟩)
      fun position later => Standing later position datum := by
  obtain ⟨value, whole, same⟩ : ∃ value, Graph.runNode given true operation (inputs.map some) =
      .ok value ∧ value.tensor = tensor := by
    unfold Graph.runNode
    rw [ran]
    exact ⟨_, rfl, rfl⟩
  cases there : nodes.findIdx? (Node.merges ⟨operation, positions⟩) with
  | none =>
      refine ⟨nodes.size, nodes.push ⟨operation, positions⟩, values.push value, ?_,
        worked.push found whole, .push values value, value, ?_, same.trans element⟩
      · rw [share_apply, there]
      · rw [← worked.size, Array.getElem?_push_size]
  | some position =>
      obtain ⟨inside, merged, -⟩ := Array.findIdx?_eq_some_iff_getElem.mp there
      have both := Bool.and_eq_true_iff.mp merged
      have equal : nodes[position] = ⟨operation, positions⟩ := by
        have first : positions = nodes[position].inputs := beq_iff_eq.mp both.1
        rw [single _ both.2, first]
      obtain ⟨known, reading, foundKnown, kept, again⟩ :=
        worked.each position ⟨operation, positions⟩ (equal ▸ Array.getElem?_eq_getElem inside)
      obtain rfl := found.unique foundKnown
      obtain rfl : value = reading := Except.ok.inj (whole.symm.trans again)
      refine ⟨position, nodes, values, ?_, worked, .refl values, value, kept, same.trans element⟩
      rw [share_apply, there]

/-- Data that some nodes have for their values. -/
abbrev Standings (values : Array Reading) : List Nat → List Datum → Prop :=
  List.Forall₂ (Standing values)

theorem Standings.later {later : Array Reading} {positions : List Nat} {data : List Datum}
    (standings : Standings values positions data) (kept : Kept values later) :
    Standings later positions data := standings.imp fun _ _ standing => standing.later kept

/-- The values of such nodes. -/
theorem Standings.found {positions : List Nat} {data : List Datum}
    (standings : Standings values positions data) : ∃ inputs, Found values positions inputs ∧
      inputs.map (·.tensor) = data.map fun datum => .scalar datum.element := by
  induction standings with
  | nil => exact ⟨[], .nil, rfl⟩
  | cons first _ ih =>
      obtain ⟨reading, found, element⟩ := first
      obtain ⟨inputs, others, tensors⟩ := ih
      exact ⟨reading :: inputs, .cons found others, by simp [element, tensors]⟩

section

variable (heap : Heap) (names : List Text) (functions : Table)

/-- What some instructions do to the stack. -/
def lowerOver (stack : Stack) : List Instruction → Build Stack
  | [] => return stack
  | instruction :: rest => do
    let stack ← lowerInstruction heap names functions stack instruction
    lowerOver stack rest

/-- The node of the only entry that is left. -/
def finish : Stack → Build Nat
  | [entry] => node (Text.ofString "result") entry
  | _ => unsupported .valueCount

variable {heap names functions}

theorem lowerOver_append (stack : Stack) (first second : List Instruction) :
    lowerOver heap names functions stack (first ++ second) =
      lowerOver heap names functions stack first >>= fun stack =>
        lowerOver heap names functions stack second := by
  induction first generalizing stack with
  | nil => exact (pure_bind _ _).symm
  | cons instruction rest ih => simp only [List.cons_append, lowerOver, ih, bind_assoc]

theorem lowerProgram_eq (stack : Stack) (program : List Instruction) :
    lowerProgram heap names functions stack program =
      lowerOver heap names functions stack program >>= finish := by
  induction program generalizing stack with
  | nil =>
      rw [lowerOver, pure_bind, lowerProgram.eq_def]
      rcases stack with _ | ⟨entry, _ | ⟨other, rest⟩⟩ <;> rfl
  | cons instruction rest ih =>
      simp only [lowerOver, bind_assoc, ← ih]
      exact lowerProgram.eq_def ..

variable (heap names functions given)

/-- Lowering some instructions pushes nodes that have data for their values. -/
def Realizes (program : Program) (data : List Datum) : Prop :=
  ∀ nodes values, Worked given nodes values → ∀ stack,
    Reaches given nodes values (lowerOver heap names functions stack program) fun after later =>
      ∃ positions : List Nat, after = positions.reverse.map .node ++ stack ∧
        Standings later positions data

variable {heap names functions given}

theorem realizes_nil : Realizes given heap names functions [] [] :=
  fun _ _ worked _ => reaches_pure worked ⟨[], rfl, .nil⟩

theorem Realizes.append {first second : Program} {data others : List Datum}
    (left : Realizes given heap names functions first data)
    (right : Realizes given heap names functions second others) :
    Realizes given heap names functions (first ++ second) (data ++ others) := by
  intro nodes values worked stack
  rw [lowerOver_append]
  refine reaches_bind (left nodes values worked stack) ?_
  rintro _ after later workedThen keptThen ⟨positions, rfl, standings⟩
  obtain ⟨_, ending, final, came, workedLast, keptLast, more, rfl, others⟩ :=
    right after later workedThen (positions.reverse.map .node ++ stack)
  refine ⟨_, ending, final, came, workedLast, keptLast, positions ++ more, by simp, ?_⟩
  exact List.rel_append (standings.later keptLast) others

/-- One more instruction, whose node has a datum for its value. -/
theorem Realizes.last {program : Program} {data : List Datum} {instruction : Instruction}
    {datum : Datum} (operands : Realizes given heap names functions program data)
    (step : ∀ nodes values, Worked given nodes values → ∀ stack positions,
      Standings values positions data → Reaches given nodes values
        (lowerInstruction heap names functions (positions.reverse.map .node ++ stack) instruction)
        fun after later => ∃ position, after = .node position :: stack ∧
          Standing later position datum) :
    Realizes given heap names functions (program ++ [instruction]) [datum] := by
  intro nodes values worked stack
  rw [lowerOver_append]
  refine reaches_bind (operands nodes values worked stack) ?_
  rintro _ after later workedThen keptThen ⟨positions, rfl, standings⟩
  refine reaches_bind (step after later workedThen stack positions standings) ?_
  rintro _ ending final workedLast keptLast ⟨position, rfl, standing⟩
  exact reaches_pure workedLast ⟨[position], rfl, .cons standing .nil⟩

/-- A program inside another has its value at one node. -/
theorem Realizes.nested {program : Program} {datum : Datum}
    (realizes : Realizes given heap names functions program [datum]) :
    Realizes given heap names functions [.nested program] [datum] := by
  refine Realizes.last realizes_nil fun nodes values worked stack positions standings => ?_
  cases standings
  have inner : Reaches given nodes values (lowerProgram heap names functions [] program)
      fun position later => Standing later position datum := by
    rw [lowerProgram_eq]
    refine reaches_bind (realizes nodes values worked []) ?_
    rintro _ after later workedThen keptThen ⟨positions, rfl, standings⟩
    cases standings with
    | cons standing others =>
        cases others
        exact reaches_pure workedThen standing
  exact reaches_bind inner fun position after later workedThen _ standing =>
    reaches_pure workedThen ⟨position, rfl, standing⟩

theorem reaches_pushed (stack : Stack) {build : Build Nat} {datum : Datum}
    (reaches : Reaches given nodes values build fun position later => Standing later position datum) :
    Reaches given nodes values (do return .node (← build) :: stack) fun after later =>
      ∃ position, after = .node position :: stack ∧ Standing later position datum :=
  reaches_bind reaches fun position _ _ worked _ standing =>
    reaches_pure worked ⟨position, rfl, standing⟩

theorem realizes_literal {datum : Datum} (fits : datum.Fits) :
    Realizes given heap names functions [.literal datum.value] [datum] := by
  refine Realizes.last realizes_nil fun nodes values worked stack positions standings => ?_
  cases standings
  have constant : lowerInstruction heap names functions stack (.literal datum.value) =
      (do return .node (← share ⟨.constant (.scalar datum.scalar), []⟩) :: stack) := by
    cases datum <;> rfl
  have ran : Graph.nodeTensor given (.constant (.scalar datum.scalar)) [] = .ok (.scalar datum.element) :=
    Datum.ofConstant_scalar fits
  rw [List.reverse_nil, List.map_nil, List.nil_append, constant]
  exact reaches_pushed stack (reaches_share worked datum.single_constant .nil ran rfl)

theorem realizes_argument {name : Text} {datum : Datum} {argument : Argument} (known : name ∈ names)
    (passed : given.lookup name = some argument)
    (tensor : argument.toTensor = .ok (.scalar datum.element)) :
    Realizes given heap names functions [.name name] [datum] := by
  refine Realizes.last realizes_nil fun nodes values worked stack positions standings => ?_
  cases standings
  have ran : Graph.nodeTensor given (.argument name) [] = .ok (.scalar datum.element) := by
    simp only [Graph.nodeTensor, passed, tensor]
  change Reaches given nodes values (if name ∈ names then _ else _) _
  rw [if_pos known]
  exact reaches_pushed stack (reaches_share worked (.of_ne (by simp)) .nil ran rfl)

theorem realizes_unary {symbol : Text} {program : Program} {datum result : Datum}
    (operand : Realizes given heap names functions program [datum])
    (known : datum.unary? symbol = some result) (fits : datum.Fits) :
    Realizes given heap names functions (program ++ [.unary symbol]) [result] := by
  refine operand.last fun nodes values worked stack positions standings => ?_
  obtain ⟨listed, operation, held, applied⟩ := Datum.element_unary known fits
  obtain ⟨position, _, ⟨reading, found, tensor⟩, ⟨⟩, rfl⟩ := List.forall₂_cons_right_iff.mp standings
  have ran : Graph.nodeTensor given (.unary symbol) [some reading] = .ok (.scalar result.element) := by
    simp only [Graph.nodeTensor, held, tensor, applied]
  change Reaches given nodes values (if symbol ∈ unaryArrayOperators then _ else _) _
  rw [if_pos listed]
  exact reaches_pushed stack (reaches_share worked (.of_ne (by simp)) (.cons found .nil) ran rfl)

/-- An operator with two operands, whether the program would skip one of them or not. -/
theorem realizes_combined {symbol : Text} {program : Program} {one two result : Datum}
    (operands : Realizes given heap names functions program [one, two])
    (combines : Datum.Combines symbol one two result) :
    Realizes given heap names functions (program ++ [.binary symbol]) [result] := by
  refine operands.last fun nodes values worked stack positions standings => ?_
  obtain ⟨listed, other, operation, held, applied⟩ := combines
  obtain ⟨left, _, ⟨first, foundLeft, tensorLeft⟩, others, rfl⟩ :=
    List.forall₂_cons_right_iff.mp standings
  obtain ⟨right, _, ⟨second, foundRight, tensorRight⟩, ⟨⟩, rfl⟩ :=
    List.forall₂_cons_right_iff.mp others
  have ran : Graph.nodeTensor given (.binary symbol) [some first, some second] =
      .ok (.scalar result.element) := by
    simp only [Graph.nodeTensor, if_neg other, held, tensorLeft, tensorRight, applied]
  change Reaches given nodes values (if symbol ∈ binaryArrayOperators then _ else _) _
  rw [if_pos listed]
  exact reaches_pushed stack (reaches_share worked (.of_ne (by simp))
    (.cons foundLeft (.cons foundRight .nil)) ran rfl)

theorem realizes_conditional {program : Program} {met : Bool} {one two : Datum}
    (operands : Realizes given heap names functions program [.bool met, one, two])
    (alike : one.kind = two.kind) :
    Realizes given heap names functions (program ++ [.ternary Term.conditionSymbol])
      [if met then one else two] := by
  refine operands.last fun nodes values worked stack positions standings => ?_
  obtain ⟨condition, _, ⟨first, foundCondition, tensorCondition⟩, arms, rfl⟩ :=
    List.forall₂_cons_right_iff.mp standings
  obtain ⟨yes, _, ⟨second, foundYes, tensorYes⟩, others, rfl⟩ :=
    List.forall₂_cons_right_iff.mp arms
  obtain ⟨no, _, ⟨third, foundNo, tensorNo⟩, ⟨⟩, rfl⟩ := List.forall₂_cons_right_iff.mp others
  have ran : Graph.nodeTensor given .choose [some first, some second, some third] =
      .ok (.scalar (if met then one else two).element) := by
    simp only [Graph.nodeTensor, tensorCondition, tensorYes, tensorNo]
    exact Datum.choose_elements met alike
  exact reaches_pushed stack (reaches_share worked (.of_ne (by simp))
    (.cons foundCondition (.cons foundYes (.cons foundNo .nil))) ran rfl)

theorem popNodes_positions (place : Text) (positions taken : List Nat) (stack : Stack) :
    popNodes place positions.length (positions.map .node ++ stack) taken =
      pure (positions.reverse ++ taken, stack) := by
  induction positions generalizing taken with
  | nil => rfl
  | cons position positions ih =>
      rw [List.reverse_cons, List.append_assoc]
      exact ih (position :: taken)

theorem foldlM_elements {operation : BinaryOperation} {function : Int → Int → Int}
    (applies : ∀ left right, (Datum.int left).Fits → (Datum.int right).Fits →
      (Datum.int (function left right)).Fits ∧
        (Tensor.scalar (Datum.int left).element).applyBinary operation
            (.scalar (Datum.int right).element) =
          .ok (.scalar (Datum.int (function left right)).element))
    {first : Int} {others : List Int} (fits : (Datum.int first).Fits)
    (fitsOthers : ∀ number ∈ others, (Datum.int number).Fits) :
    List.foldlM (m := Except Failure) (fun best tensor => Tensor.applyBinary operation best tensor)
        (.scalar (Datum.int first).element)
        (others.map fun number => .scalar (Datum.int number).element) =
      .ok (.scalar (Datum.int (others.foldl function first)).element) := by
  induction others generalizing first with
  | nil => rfl
  | cons next others ih =>
      obtain ⟨fitsNext, applied⟩ := applies first next fits (fitsOthers next List.mem_cons_self)
      rw [List.map_cons, List.foldlM_cons, applied]
      exact ih fitsNext fun number member => fitsOthers number (List.mem_cons_of_mem _ member)

theorem realizes_extremum {name : Text} {function : Int → Int → Int} {program : Program}
    {first second : Int} {others : List Int} (listed : (name, function) ∈ Datum.extrema)
    (free : name ∉ names) (held : functions.holds name = true)
    (fits : ∀ number ∈ first :: second :: others, (Datum.int number).Fits)
    (operands : Realizes given heap names functions program
      ((first :: second :: others).map Datum.int)) :
    Realizes given heap names functions
      (.name name :: program ++ [.call (first :: second :: others).length])
      [.int ((second :: others).foldl function first)] := by
  intro nodes values worked stack
  have callee : lowerOver heap names functions stack (.name name :: program ++
        [.call (first :: second :: others).length]) =
      lowerOver heap names functions (.function name :: stack) program >>= fun stack =>
        lowerOver heap names functions stack [.call (first :: second :: others).length] := by
    rw [List.cons_append, lowerOver]
    change ((if name ∈ names then _ else if name ∈ arrayFunctions ∧ functions.holds name = true then _
      else _) >>= fun stack => _) = _
    rw [if_neg free, if_pos ⟨(Datum.element_extremum listed).1, held⟩, pure_bind, lowerOver_append]
  rw [callee]
  refine reaches_bind (operands nodes values worked (.function name :: stack)) ?_
  rintro _ after later workedThen keptThen ⟨positions, rfl, standings⟩
  obtain ⟨inputs, found, tensors⟩ := standings.found
  obtain ⟨-, other, operation, extremum, applies⟩ := Datum.element_extremum listed
  have whole : Graph.nodeTensor given (.call name) (inputs.map some) =
      .ok (.scalar (Datum.int ((second :: others).foldl function first)).element) := by
    simp only [Graph.nodeTensor, if_neg other, Graph.allThere_some, Graph.runCall, extremum]
    change Graph.runExtremum operation (inputs.map (·.tensor)) = _
    rw [tensors, List.map_map]
    exact foldlM_elements applies (fits first List.mem_cons_self)
      fun number member => fits number (List.mem_cons_of_mem _ member)
  have shared := reaches_pushed stack
    (reaches_share workedThen (.of_ne (by simp)) found whole rfl)
  have popped := popNodes_positions (Text.ofString "call") positions.reverse [] (.function name :: stack)
  rw [List.length_reverse, standings.length_eq, List.length_map, List.reverse_reverse,
    List.append_nil] at popped
  have last : Reaches given after later (lowerInstruction heap names functions
      (positions.reverse.map .node ++ .function name :: stack)
      (.call (first :: second :: others).length)) fun after later =>
        ∃ position, after = .node position :: stack ∧
          Standing later position (.int ((second :: others).foldl function first)) := by
    change Reaches given after later (popNodes (Text.ofString "call")
      (first :: second :: others).length (positions.reverse.map .node ++ .function name :: stack) [] >>=
        fun popped => _) _
    rw [popped]
    exact shared
  refine reaches_bind last ?_
  rintro _ ending final workedLast keptLast ⟨position, rfl, standing⟩
  exact reaches_pure workedLast ⟨[position], rfl, .cons standing .nil⟩

theorem realizes_each {arguments : List Term} {numbers : List Int} (each : List.Forall₂
      (fun argument number => Realizes given heap names functions argument.code [.int number])
      arguments numbers) :
    Realizes given heap names functions (Term.codeAll arguments) (numbers.map .int) := by
  induction each with
  | nil => exact realizes_nil
  | cons first _ ih => exact first.append ih

variable {environment : Text → Option Datum}

/-- An expression of data that fit is lowered, and its node has the element of what it denotes. -/
theorem realizes_denotes
    (arguments : ∀ name datum, environment name = some datum → datum.Fits → name ∈ names ∧
      ∃ argument, given.lookup name = some argument ∧
        argument.toTensor = .ok (.scalar datum.element))
    (extrema : ∀ name ∈ Datum.extrema.map (·.1), name ∉ names ∧ functions.holds name = true)
    {term : Term} {datum : Datum} (denotes : Denotes environment Datum.Fits term datum) :
    datum.Fits ∧ Realizes given heap names functions term.code [datum] := by
  induction denotes with
  | literal fits => exact ⟨fits, realizes_literal fits⟩
  | argument known fits =>
      obtain ⟨listed, argument, passed, tensor⟩ := arguments _ _ known fits
      exact ⟨fits, realizes_argument listed passed tensor⟩
  | unary _ known fits ih => exact ⟨fits, realizes_unary ih.2 known ih.1⟩
  | binary _ _ known fits ihLeft ihRight =>
      exact ⟨fits, realizes_combined (ihLeft.2.append ihRight.2)
        (Datum.combines_binary known ihLeft.1 ihRight.1)⟩
  | connective listed _ _ fits ihLeft ihRight =>
      refine ⟨fits, ?_⟩
      have operands := ihLeft.2.append ihRight.2.nested
      rw [Term.code, List.append_cons]
      exact realizes_combined operands (Datum.combines_connective listed ihLeft.1 ihRight.1)
  | conditional _ _ _ alike fits ih ihYes ihNo =>
      refine ⟨fits, ?_⟩
      have operands := (ih.2.append ihYes.2.nested).append ihNo.2.nested
      rw [Term.code, List.append_cons, List.append_cons]
      exact realizes_conditional operands alike
  | @extremum name function terms first second others listed count _ fits ih =>
      obtain ⟨free, held⟩ := extrema name (List.mem_map_of_mem listed)
      have each := List.forall₂_iff_zip.mpr ⟨count, fun {argument number} pair => ih argument number pair⟩
      have operands := realizes_each (each.imp fun _ _ both => both.2)
      have flipped : List.Forall₂ (fun number (argument : Term) => (Datum.int number).Fits ∧
          Realizes given heap names functions argument.code [.int number])
          (first :: second :: others) terms := List.Forall₂.flip each
      have fitsAll := ((List.forall₂_and_left _ _).mp flipped).1
      refine ⟨fits, ?_⟩
      rw [Term.code, count]
      exact realizes_extremum listed free held fitsAll operands

end

end Lowering

end Formula
