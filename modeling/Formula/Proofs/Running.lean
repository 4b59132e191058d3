import Formula.Graph.Run
import Formula.Proofs.Sharing

/-!
Running what a program was lowered to: nodes in order are worked out one after another, and the output
is the value of the program as an expression.
-/

namespace Formula

namespace Graph

variable {α : Type} (meaning : NodeOperation → List α → α)

/-- What a node with a pure meaning comes to, if all inputs are there. -/
def runPure (operation : NodeOperation) (inputs : List (Option α)) : Except Failure α := do
  return meaning operation (← allThere inputs)

/-- Whether values are those that nodes have, each from the values of its inputs. -/
def Solves (nodes : List Node) (values : Array α) : Prop :=
  ∀ (position : Nat) (node : Node), nodes[position]? = some node → ∃ inputs,
    List.Forall₂ (fun input value => values[input]? = some value) node.inputs inputs ∧
      values[position]? = some (meaning node.operation inputs)

theorem allThere_some (inputs : List α) : allThere (inputs.map some) = .ok inputs := by
  have found : (inputs.map some).mapM id = some inputs := by
    induction inputs with
    | nil => rfl
    | cons first rest ih => simp [ih]
  simp [allThere, found]

/-- Inputs that have been worked out are there. -/
theorem mapM_inputOf {count : Nat} {values : Array α} (fits : values.size ≤ count)
    {positions : List Nat} (inside : ∀ position ∈ positions, position < values.size) :
    ∃ inputs, List.Forall₂ (fun input value => values[input]? = some value) positions inputs ∧
      positions.mapM (inputOf (m := Except Failure) count values) = .ok (inputs.map some) := by
  induction positions with
  | nil => exact ⟨[], .nil, rfl⟩
  | cons position positions ih =>
      obtain ⟨inputs, found, read⟩ := ih fun other member => inside other (List.mem_cons_of_mem _ member)
      have first := inside position List.mem_cons_self
      refine ⟨values[position] :: inputs, .cons (Array.getElem?_eq_getElem first) found, ?_⟩
      have there : inputOf (m := Except Failure) count values position =
          .ok (some values[position]) := by
        rw [inputOf, if_pos (by omega), Array.getElem?_eq_getElem first]
        rfl
      rw [List.mapM_cons, there, read]
      rfl

/-- Values that are already known do not change when one more is worked out. -/
theorem getElem?_push_some {values : Array α} {position : Nat} {value : α} (next : α)
    (found : values[position]? = some value) : (values.push next)[position]? = some value := by
  obtain ⟨inside, -⟩ := Array.getElem?_eq_some_iff.mp found
  rw [Array.getElem?_push, if_neg (by omega), found]

/-- Every node that comes in order is worked out. -/
theorem runNodes_solves {arguments : List Text} {nodes : Array Node} (ordered : Ordered arguments nodes)
    (rest done : List Node) (parts : nodes.toList = done ++ rest) {values : Array α}
    (size : values.size = done.length) (solved : Solves meaning done values) :
    ∃ all, runNodes (runPure meaning) nodes.size rest values = .ok all ∧
      Solves meaning nodes.toList all := by
  induction rest generalizing done values with
  | nil =>
      rw [List.append_nil] at parts
      rw [parts]
      exact ⟨values, rfl, solved⟩
  | cons node rest ih =>
      have total : nodes.size = done.length + (rest.length + 1) := by
        rw [← Array.length_toList, parts, List.length_append, List.length_cons]
      have here : nodes[done.length]? = some node := by
        rw [← Array.getElem?_toList, parts]
        simp
      have fits : values.size ≤ nodes.size := by omega
      obtain ⟨inputs, found, read⟩ := mapM_inputOf fits fun position (member : position ∈ node.inputs) =>
        size ▸ ordered.earlier done.length node here position member
      have keep {position : Nat} {value : α} (known : values[position]? = some value) :=
        getElem?_push_some (meaning node.operation inputs) known
      have solvedNext : Solves meaning (done ++ [node])
          (values.push (meaning node.operation inputs)) := by
        intro position other there
        rcases Nat.lt_trichotomy position done.length with before | rfl | after
        · rw [List.getElem?_append_left before] at there
          obtain ⟨known, foundKnown, value⟩ := solved position other there
          exact ⟨known, foundKnown.imp fun _ _ => keep, keep value⟩
        · obtain rfl : node = other := by simpa using there
          refine ⟨inputs, found.imp fun _ _ => keep, ?_⟩
          rw [← size, Array.getElem?_push_size]
        · rw [List.getElem?_eq_none (by simp; omega)] at there
          cases there
      obtain ⟨all, ran, holds⟩ := ih (done ++ [node]) (by simp [parts]) (by simp [size]) solvedNext
      refine ⟨all, ?_, holds⟩
      have worked : runPure meaning node.operation (inputs.map some) =
          .ok (meaning node.operation inputs) := by
        rw [runPure, allThere_some]
        rfl
      rw [runNodes, read]
      change (runPure meaning node.operation (inputs.map some) >>= fun value =>
        runNodes (runPure meaning) nodes.size rest (values.push value)) = .ok all
      rw [worked]
      exact ran

/-- Nodes in order can be worked out. -/
theorem runNodes_ordered {arguments : List Text} {nodes : Array Node}
    (ordered : Ordered arguments nodes) :
    ∃ values, runNodes (runPure meaning) nodes.size nodes.toList #[] = .ok values ∧
      Solves meaning nodes.toList values :=
  runNodes_solves meaning ordered nodes.toList [] rfl rfl (by rintro _ _ ⟨⟩)

end Graph

theorem NodeOperation.eq_of_merges {left right : NodeOperation} (same : left.merges right = true) :
    left = right ∨ ∃ given kept, left = .constant given ∧ right = .constant kept ∧
      given.merges kept = true := by
  cases left <;> cases right <;> simp_all [merges]

namespace ArrayTree

variable {α : Type} {meaning : NodeOperation → List α → α} {nodes : Array Node} {values : Array α}

/-- Whether a meaning makes no difference between a constant of an expression and the constant of a node
that it shares. -/
def Unifies (meaning : NodeOperation → List α → α) (nodes : Array Node) (holds : Constant → Prop) :
    Prop :=
  ∀ given kept, holds given → (⟨.constant kept, []⟩ : Node) ∈ nodes → given.merges kept = true →
    meaning (.constant given) [] = meaning (.constant kept) []

mutual

theorem ComputedAt.value {arguments : List Text} (ordered : Ordered arguments nodes)
    (solved : Graph.Solves meaning nodes.toList values) :
    ∀ {tree : ArrayTree} {position : Nat}, tree.ComputedAt nodes position →
      Unifies meaning nodes (fun constant => tree.Holds constant) →
        values[position]? = some (tree.value meaning)
  | .apply operation inputs, position, ⟨node, found, fits, computed⟩, unifies => by
    obtain ⟨known, foundKnown, value⟩ := solved position node (by simpa using found)
    have parts := AllComputedAt.values ordered solved computed fun given kept holds =>
      unifies given kept (.inr holds)
    obtain rfl := List.right_unique_forall₂' (fun _ _ _ first second =>
      Option.some.inj (first.symm.trans second)) foundKnown parts
    rw [value, ArrayTree.value]
    rcases fits with rfl | merged
    · rfl
    · rcases NodeOperation.eq_of_merges merged with rfl | ⟨given, kept, rfl, keptHere, merged⟩
      · rfl
      · obtain ⟨kind, positions⟩ := node
        obtain rfl : kind = .constant kept := keptHere
        obtain rfl : positions = [] := List.length_eq_zero_iff.mp (ordered.arity position _ found 0 rfl)
        obtain rfl : inputs = [] := List.length_eq_zero_iff.mp computed.length.symm
        have same := unifies given kept (.inl rfl) (Array.mem_of_getElem? found) merged
        exact congrArg some same.symm

theorem AllComputedAt.values {arguments : List Text} (ordered : Ordered arguments nodes)
    (solved : Graph.Solves meaning nodes.toList values) :
    ∀ {trees : List ArrayTree} {positions : List Nat}, AllComputedAt nodes trees positions →
      Unifies meaning nodes (fun constant => SomeHolds constant trees) →
        List.Forall₂ (fun position value => values[position]? = some value) positions
          (ArrayTree.values meaning trees)
  | [], [], _, _ => .nil
  | _ :: _, _ :: _, ⟨first, others⟩, unifies =>
    .cons (first.value ordered solved fun given kept holds => unifies given kept (.inl holds))
      (AllComputedAt.values ordered solved others fun given kept holds =>
        unifies given kept (.inr holds))

end

end ArrayTree

namespace Program

variable {heap : Heap} {functions : Table} {arguments : List Text} {program : Program} {graph : Graph}

/-- Nodes share what is equal and are in order, and working them out one after another gives the value of
the program as an expression, in which every occurrence is worked out by itself. -/
theorem sharing_sound (lowered : program.lower heap functions arguments = .ok graph) :
    Ordered arguments graph.nodes ∧ graph.output < graph.nodes.size ∧
      (∀ (position other : Nat) (node : Node), graph.nodes[position]? = some node →
        graph.nodes[other]? = some node → node.operation.holdsNotANumber = false →
          position = other) ∧
      ∃ tree, program.arrayTree? heap arguments = some tree ∧
        ∀ (α : Type) (meaning : NodeOperation → List α → α),
          ArrayTree.Unifies meaning graph.nodes (fun constant => tree.Holds constant) →
            ∃ values, Graph.runNodes (Graph.runPure meaning) graph.nodes.size graph.nodes.toList #[] =
                .ok values ∧
              values[graph.output]? = some (tree.value meaning) := by
  change (Lowering.lowerProgram heap arguments functions [] program #[] >>= fun outcome =>
    pure (⟨outcome.2, outcome.1, arguments⟩ : Graph)) = Except.ok graph at lowered
  cases built : Lowering.lowerProgram heap arguments functions [] program #[] with
  | error failure =>
      rw [built] at lowered
      cases lowered
  | ok outcome =>
      rw [built] at lowered
      cases lowered
      obtain ⟨-, ordered, tree, read, computed⟩ :=
        Lowering.yields_program program .nil (Ordered.empty arguments) _ _ built
      refine ⟨ordered, computed.lt, fun _ _ _ found other proper => ordered.single found other proper,
        tree, read, fun α meaning unifies => ?_⟩
      obtain ⟨values, ran, solved⟩ := Graph.runNodes_ordered meaning ordered
      exact ⟨values, ran, computed.value ordered solved unifies⟩

/-- The square of `x`, added to itself, has one node for the square. -/
theorem sharing_sound_of_square :
    let square : Program := [.name (Text.ofString "x"), .name (Text.ofString "x"),
      .binary (Text.ofString "*")]
    let size (_ : NodeOperation) (inputs : List Nat) : Nat := inputs.foldr (· + ·) 1
    ∃ (graph : Graph) (tree : ArrayTree), Program.lower {} [] [Text.ofString "x"]
        (square ++ square ++ [.binary (Text.ofString "+")]) = .ok graph ∧ graph.nodes.size = 3 ∧
      tree.value size = 7 ∧
        ∃ values, Graph.runNodes (Graph.runPure size) graph.nodes.size graph.nodes.toList #[] =
            .ok values ∧ values[graph.output]? = some (tree.value size) := by
  intro square size
  have lowered : Program.lower {} [] [Text.ofString "x"]
      (square ++ square ++ [.binary (Text.ofString "+")]) = .ok {
        nodes := #[⟨.argument (Text.ofString "x"), []⟩, ⟨.binary (Text.ofString "*"), [0, 0]⟩,
          ⟨.binary (Text.ofString "+"), [1, 1]⟩]
        output := 2, arguments := [Text.ofString "x"] } := by with_unfolding_all rfl
  obtain ⟨-, -, -, tree, read, sound⟩ := sharing_sound lowered
  obtain rfl : _ = tree := Option.some.inj read
  refine ⟨_, _, lowered, rfl, rfl, sound Nat size ?_⟩
  intro given kept _ _ _
  rfl

end Program

end Formula
