import Formula.Graph.Run
import Formula.Proofs.Merging
import Formula.Proofs.Translation

/-!
Sharing is sound: a graph has each operation once, and running it gives the value of the program as an
expression in which every occurrence is worked out by itself.
-/

namespace Formula

/-- An array expression as a tree: an operation applied to the values of others, nothing shared. -/
inductive ArrayTree where
  | apply (operation : NodeOperation) (inputs : List ArrayTree)
  deriving Inhabited

namespace ArrayTree

section

variable {α : Type} (meaning : NodeOperation → List α → α)

mutual

/-- The value of an expression, for a meaning of the operations. -/
def value : ArrayTree → α
  | .apply operation inputs => meaning operation (values inputs)

def values : List ArrayTree → List α
  | [] => []
  | tree :: rest => tree.value :: values rest

end

end

mutual

/-- Whether a constant stands somewhere in an expression. -/
def Holds (constant : Constant) : ArrayTree → Prop
  | .apply operation inputs => operation = .constant constant ∨ SomeHolds constant inputs

def SomeHolds (constant : Constant) : List ArrayTree → Prop
  | [] => False
  | tree :: rest => tree.Holds constant ∨ SomeHolds constant rest

end

/-- What stands on the stack while a program is read: an expression, or a function that waits for its
call. -/
inductive Entry where
  | tree (tree : ArrayTree)
  | function (name : Text)

def popTree : List Entry → Option (ArrayTree × List Entry)
  | .tree tree :: rest => some (tree, rest)
  | _ => none

/-- The topmost expressions; the topmost is last in the result. -/
def popTrees : Nat → List Entry → List ArrayTree → Option (List ArrayTree × List Entry)
  | 0, stack, taken => some (taken, stack)
  | count + 1, stack, taken => do
    let (tree, rest) ← popTree stack
    popTrees count rest (tree :: taken)

section

variable (heap : Heap) (arguments : List Text)

mutual

/-- What an instruction does to the stack of expressions. A name is an argument, or else a function. -/
def readInstruction (stack : List Entry) (instruction : Instruction) : Option (List Entry) := do
  match instruction with
  | .literal value =>
    let constant ← Lowering.constant? heap value
    some (.tree (.apply (.constant constant) []) :: stack)
  | .name name =>
    if name ∈ arguments then some (.tree (.apply (.argument name) []) :: stack)
    else some (.function name :: stack)
  | .unary symbol =>
    let (operand, stack) ← popTree stack
    some (.tree (.apply (.unary symbol) [operand]) :: stack)
  | .binary symbol =>
    let (right, stack) ← popTree stack
    let (left, stack) ← popTree stack
    some (.tree (.apply (.binary symbol) [left, right]) :: stack)
  | .ternary _ =>
    let (no, stack) ← popTree stack
    let (yes, stack) ← popTree stack
    let (condition, stack) ← popTree stack
    some (.tree (.apply .choose [condition, yes, no]) :: stack)
  | .call count =>
    let (inputs, stack) ← popTrees count.toNat stack []
    match stack with
    | .function name :: stack => some (.tree (.apply (.call name) inputs) :: stack)
    | _ => none
  | .array count =>
    let (inputs, stack) ← popTrees count.toNat stack []
    some (.tree (.apply .vector inputs) :: stack)
  | .nested program =>
    let tree ← readProgram [] program
    some (.tree tree :: stack)
  | .discard =>
    match stack with
    | _ :: stack => some stack
    | [] => none
  | _ => none

/-- The expression that a program is. Nested programs are parts of it, whether they would run or not,
and the values of statements are dropped. -/
def readProgram (stack : List Entry) (program : List Instruction) : Option ArrayTree := do
  match program, stack with
  | [], [.tree tree] => some tree
  | [], _ => none
  | instruction :: rest, stack =>
    let stack ← readInstruction stack instruction
    readProgram stack rest

end

end

section

variable {heap : Heap} {arguments : List Text} {stack rest under base : List Entry}
  {first second third : ArrayTree} {trees : List ArrayTree}

theorem read_literal {value : Value} {constant : Constant}
    (known : Lowering.constant? heap value = some constant) :
    readInstruction heap arguments stack (.literal value) =
      some (.tree (.apply (.constant constant) []) :: stack) := by
  change (Lowering.constant? heap value).bind _ = _
  rw [known]
  rfl

theorem read_argument {name : Text} (given : name ∈ arguments) :
    readInstruction heap arguments stack (.name name) =
      some (.tree (.apply (.argument name) []) :: stack) :=
  if_pos given

theorem read_function {name : Text} (free : name ∉ arguments) :
    readInstruction heap arguments stack (.name name) = some (.function name :: stack) :=
  if_neg free

theorem read_unary {symbol : Text} (operand : popTree stack = some (first, rest)) :
    readInstruction heap arguments stack (.unary symbol) =
      some (.tree (.apply (.unary symbol) [first]) :: rest) := by
  change (popTree stack).bind _ = _
  rw [operand]
  rfl

theorem read_binary {symbol : Text} (right : popTree stack = some (second, rest))
    (left : popTree rest = some (first, under)) :
    readInstruction heap arguments stack (.binary symbol) =
      some (.tree (.apply (.binary symbol) [first, second]) :: under) := by
  change (popTree stack).bind _ = _
  rw [right]
  change (popTree rest).bind _ = _
  rw [left]
  rfl

theorem read_ternary {symbol : Text} (no : popTree stack = some (third, rest))
    (yes : popTree rest = some (second, under)) (condition : popTree under = some (first, base)) :
    readInstruction heap arguments stack (.ternary symbol) =
      some (.tree (.apply .choose [first, second, third]) :: base) := by
  change (popTree stack).bind _ = _
  rw [no]
  change (popTree rest).bind _ = _
  rw [yes]
  change (popTree under).bind _ = _
  rw [condition]
  rfl

theorem read_call {count : Int} {name : Text}
    (inputs : popTrees count.toNat stack [] = some (trees, .function name :: rest)) :
    readInstruction heap arguments stack (.call count) =
      some (.tree (.apply (.call name) trees) :: rest) := by
  change (popTrees count.toNat stack []).bind _ = _
  rw [inputs]
  rfl

theorem read_array {count : Int} (inputs : popTrees count.toNat stack [] = some (trees, rest)) :
    readInstruction heap arguments stack (.array count) =
      some (.tree (.apply .vector trees) :: rest) := by
  change (popTrees count.toNat stack []).bind _ = _
  rw [inputs]
  rfl

theorem read_nested {program : Program} (known : readProgram heap arguments [] program = some first) :
    readInstruction heap arguments stack (.nested program) = some (.tree first :: stack) := by
  change (readProgram heap arguments [] program).bind _ = _
  rw [known]
  rfl

end

end ArrayTree

/-- The array expression that a program is, with nothing shared. -/
def Program.arrayTree? (heap : Heap) (arguments : List Text) (program : Program) :
    Option ArrayTree :=
  ArrayTree.readProgram heap arguments [] program

/-- How many inputs an operation has, if that is fixed. -/
def NodeOperation.arity? : NodeOperation → Option Nat
  | .argument _ | .constant _ => some 0
  | .unary _ => some 1
  | .binary _ => some 2
  | .choose => some 3
  | .call _ | .vector | .unknown _ => none

/-- Nodes that can be computed in order, for the arguments of some names, with no two that could be one.
Two constants that hold a number that is none may look alike. -/
structure Ordered (arguments : List Text) (nodes : Array Node) : Prop where
  earlier : ∀ (position : Nat) (node : Node), nodes[position]? = some node →
    ∀ input ∈ node.inputs, input < position
  arity : ∀ (position : Nat) (node : Node), nodes[position]? = some node →
    ∀ count, node.operation.arity? = some count → node.inputs.length = count
  named : ∀ (position : Nat) (node : Node), nodes[position]? = some node →
    ∀ name, node.operation = .argument name → name ∈ arguments
  distinct : ∀ (position other : Nat) (left right : Node), nodes[position]? = some left →
    nodes[other]? = some right → position ≠ other → left.merges right = false

/-- Whether nodes are still there, in their places, among others. -/
def Extends (nodes after : Array Node) : Prop :=
  ∀ (position : Nat) (node : Node), nodes[position]? = some node → after[position]? = some node

namespace Extends

theorem refl (nodes : Array Node) : Extends nodes nodes := fun _ _ found => found

theorem trans {nodes between after : Array Node} (first : Extends nodes between)
    (second : Extends between after) : Extends nodes after :=
  fun position node found => second position node (first position node found)

theorem push (nodes : Array Node) (item : Node) : Extends nodes (nodes.push item) := by
  intro position node found
  obtain ⟨inside, -⟩ := Array.getElem?_eq_some_iff.mp found
  rw [Array.getElem?_push, if_neg (by omega), found]

end Extends

namespace Ordered

variable {arguments : List Text} {nodes : Array Node}

theorem empty (arguments : List Text) : Ordered arguments #[] := by
  constructor <;> simp

/-- One more node that refers to those there are, and equals none of them. -/
theorem push (ordered : Ordered arguments nodes) {item : Node}
    (earlier : ∀ input ∈ item.inputs, input < nodes.size)
    (arity : ∀ count, item.operation.arity? = some count → item.inputs.length = count)
    (named : ∀ name, item.operation = .argument name → name ∈ arguments)
    (fresh : ∀ (position : Nat) (node : Node), nodes[position]? = some node →
      item.merges node = false) :
    Ordered arguments (nodes.push item) := by
  have cases_push {position : Nat} {node : Node} (found : (nodes.push item)[position]? = some node) :
      (position = nodes.size ∧ node = item) ∨ nodes[position]? = some node := by
    rw [Array.getElem?_push] at found
    split at found
    · exact .inl ⟨‹_›, (Option.some.inj found).symm⟩
    · exact .inr found
  constructor
  · intro position node found
    obtain ⟨rfl, rfl⟩ | found := cases_push found
    · exact earlier
    · exact ordered.earlier position node found
  · intro position node found
    obtain ⟨rfl, rfl⟩ | found := cases_push found
    · exact arity
    · exact ordered.arity position node found
  · intro position node found
    obtain ⟨rfl, rfl⟩ | found := cases_push found
    · exact named
    · exact ordered.named position node found
  · intro position other left right foundLeft foundRight apart
    obtain ⟨rfl, rfl⟩ | stoodLeft := cases_push foundLeft
    · obtain ⟨rfl, rfl⟩ | stoodRight := cases_push foundRight
      · exact absurd rfl apart
      · exact fresh other right stoodRight
    · obtain ⟨-, rfl⟩ | stoodRight := cases_push foundRight
      · rw [Node.merges_comm]
        exact fresh position left stoodLeft
      · exact ordered.distinct position other left right stoodLeft stoodRight apart

/-- One node stands at one place only, unless it is a constant that holds a number that is none. -/
theorem single (ordered : Ordered arguments nodes) {position other : Nat} {node : Node}
    (found : nodes[position]? = some node) (foundOther : nodes[other]? = some node)
    (proper : node.operation.holdsNotANumber = false) : position = other := by
  by_contra apart
  have different := ordered.distinct position other node node found foundOther apart
  rw [Node.merges_self proper] at different
  cases different

end Ordered

namespace ArrayTree

variable {nodes after : Array Node}

mutual

/-- Whether a node computes an expression: by its operation, or by one that shares its node, from nodes
that compute its parts. -/
def ComputedAt (nodes : Array Node) : ArrayTree → Nat → Prop
  | .apply operation inputs, position => ∃ node : Node, nodes[position]? = some node ∧
      (operation = node.operation ∨ operation.merges node.operation = true) ∧
        AllComputedAt nodes inputs node.inputs

def AllComputedAt (nodes : Array Node) : List ArrayTree → List Nat → Prop
  | [], [] => True
  | tree :: trees, position :: positions =>
    tree.ComputedAt nodes position ∧ AllComputedAt nodes trees positions
  | _, _ => False

end

mutual

theorem ComputedAt.extend (kept : Extends nodes after) :
    ∀ {tree : ArrayTree} {position : Nat}, tree.ComputedAt nodes position →
      tree.ComputedAt after position
  | .apply _ _, position, ⟨node, found, fits, inputs⟩ =>
    ⟨node, kept position node found, fits, AllComputedAt.extend kept inputs⟩

theorem AllComputedAt.extend (kept : Extends nodes after) :
    ∀ {trees : List ArrayTree} {positions : List Nat}, AllComputedAt nodes trees positions →
      AllComputedAt after trees positions
  | [], [], _ => trivial
  | _ :: _, _ :: _, ⟨first, others⟩ => ⟨first.extend kept, AllComputedAt.extend kept others⟩

end

theorem ComputedAt.lt {tree : ArrayTree} {position : Nat} (computed : tree.ComputedAt nodes position) :
    position < nodes.size := by
  obtain ⟨operation, inputs⟩ := tree
  obtain ⟨node, found, -⟩ := computed
  exact (Array.getElem?_eq_some_iff.mp found).1

theorem AllComputedAt.lt {trees : List ArrayTree} {positions : List Nat}
    (computed : AllComputedAt nodes trees positions) : ∀ position ∈ positions, position < nodes.size := by
  induction positions generalizing trees with
  | nil => simp
  | cons position positions ih =>
      cases trees with
      | nil => cases computed
      | cons tree trees =>
          intro other member
          rcases List.mem_cons.mp member with rfl | member
          · exact computed.1.lt
          · exact ih computed.2 other member

theorem AllComputedAt.length {trees : List ArrayTree} {positions : List Nat}
    (computed : AllComputedAt nodes trees positions) : positions.length = trees.length := by
  induction positions generalizing trees with
  | nil =>
      cases trees with
      | nil => rfl
      | cons tree trees => cases computed
  | cons position positions ih =>
      cases trees with
      | nil => cases computed
      | cons tree trees => rw [List.length_cons, List.length_cons, ih computed.2]

/-- Whether an entry of the stack of nodes stands for an entry of the stack of expressions. -/
def StandsFor (nodes : Array Node) : Lowering.Entry → Entry → Prop
  | .node position, .tree tree => tree.ComputedAt nodes position
  | .function name, .function other => name = other
  | _, _ => False

theorem StandsFor.extend (kept : Extends nodes after) {entry : Lowering.Entry} {other : Entry}
    (stands : StandsFor nodes entry other) : StandsFor after entry other := by
  cases entry with
  | node position =>
      cases other with
      | tree tree => exact ComputedAt.extend kept stands
      | function name => exact stands
  | function name => cases other <;> exact stands

end ArrayTree

namespace Lowering

variable {α β : Type} {arguments : List Text} {nodes : Array Node}

/-- What holds of the result and the nodes when a computation that began with some nodes succeeds: the
nodes have been kept, in their order, and what is said of them is true. -/
def Yields (arguments : List Text) (nodes : Array Node) (build : Build α)
    (post : α → Array Node → Prop) : Prop :=
  Ordered arguments nodes → ∀ result after, build nodes = .ok (result, after) →
    Extends nodes after ∧ Ordered arguments after ∧ post result after

theorem yields_pure {post : α → Array Node → Prop} {result : α} (holds : post result nodes) :
    Yields arguments nodes (pure result) post := by
  rintro ordered _ _ ⟨⟩
  exact ⟨.refl nodes, ordered, holds⟩

theorem yields_unsupported {post : α → Array Node → Prop} (cause : UnsupportedCause) :
    Yields arguments nodes (unsupported cause) post := by
  rintro _ _ _ ⟨⟩

theorem yields_refused {post : β → Array Node → Prop} (cause : UnsupportedCause)
    (next : α → Build β) : Yields arguments nodes (unsupported cause >>= next) post := by
  rintro _ _ _ ⟨⟩

theorem yields_bind {post : α → Array Node → Prop} {final : β → Array Node → Prop} {first : Build α}
    {next : α → Build β} (holds : Yields arguments nodes first post)
    (follows : ∀ result after, Extends nodes after → post result after →
      Yields arguments after (next result) final) :
    Yields arguments nodes (first >>= next) final := by
  intro ordered result after built
  change (first nodes >>= fun outcome => next outcome.1 outcome.2) = _ at built
  cases came : first nodes with
  | error failure =>
      rw [came] at built
      cases built
  | ok outcome =>
      rw [came] at built
      obtain ⟨kept, orderedThen, holdsThen⟩ := holds ordered outcome.1 outcome.2 came
      obtain ⟨keptThen, orderedLast, holdsLast⟩ :=
        follows outcome.1 outcome.2 kept holdsThen orderedThen result after built
      exact ⟨kept.trans keptThen, orderedLast, holdsLast⟩

theorem yields_weaken {post weaker : α → Array Node → Prop} {build : Build α}
    (holds : Yields arguments nodes build post)
    (implies : ∀ result after, post result after → weaker result after) :
    Yields arguments nodes build weaker := by
  intro ordered result after built
  obtain ⟨kept, orderedThen, holdsThen⟩ := holds ordered result after built
  exact ⟨kept, orderedThen, implies result after holdsThen⟩

open ArrayTree (ComputedAt AllComputedAt StandsFor popTree popTrees readInstruction readProgram)

/-- A node for an operation whose inputs are there already computes the expression. -/
theorem yields_share {operation : NodeOperation} (trees : List ArrayTree) {positions : List Nat}
    (inputs : AllComputedAt nodes trees positions)
    (arity : ∀ count, operation.arity? = some count → trees.length = count)
    (named : ∀ name, operation = .argument name → name ∈ arguments) :
    Yields arguments nodes (share ⟨operation, positions⟩)
      fun position after => (ArrayTree.apply operation trees).ComputedAt after position := by
  intro ordered position after built
  rw [share_apply] at built
  cases found : nodes.findIdx? (Node.merges ⟨operation, positions⟩) with
  | some place =>
      rw [found] at built
      cases built
      obtain ⟨inside, same, -⟩ := Array.findIdx?_eq_some_iff_getElem.mp found
      simp only [Node.merges, Bool.and_eq_true, beq_iff_eq] at same
      obtain ⟨sameInputs, sameOperation⟩ := same
      refine ⟨.refl nodes, ordered, nodes[position], Array.getElem?_eq_getElem inside,
        .inr sameOperation, ?_⟩
      rw [← sameInputs]
      exact inputs
  | none =>
      rw [found] at built
      cases built
      have kept := Extends.push nodes ⟨operation, positions⟩
      have fresh (place : Nat) (node : Node) (there : nodes[place]? = some node) :
          Node.merges ⟨operation, positions⟩ node = false :=
        Array.findIdx?_eq_none_iff.mp found node (Array.mem_of_getElem? there)
      refine ⟨kept, ordered.push inputs.lt ?_ named fresh, ⟨operation, positions⟩, ?_, .inl rfl,
        inputs.extend kept⟩
      · intro count fixed
        rw [inputs.length, arity count fixed]
      · rw [Array.getElem?_push_size]

variable {stack : Stack} {entries : List ArrayTree.Entry}

theorem yields_popNode (place : Text) (agree : List.Forall₂ (StandsFor nodes) stack entries) :
    Yields arguments nodes (popNode place stack) fun popped after => after = nodes ∧
      ∃ tree rest, popTree entries = some (tree, rest) ∧ tree.ComputedAt nodes popped.1 ∧
        List.Forall₂ (StandsFor nodes) popped.2 rest := by
  cases agree with
  | nil => rintro _ _ _ ⟨⟩
  | @cons entry other stack rest stands agree =>
      cases entry with
      | function name => exact yields_refused _ fun position : Nat => pure (position, stack)
      | node position =>
          cases other with
          | function name => cases stands
          | tree tree => exact yields_pure ⟨rfl, tree, rest, rfl, stands, agree⟩

theorem yields_popNodes (place : Text) (count : Nat) {taken : List Nat} (trees : List ArrayTree)
    (agree : List.Forall₂ (StandsFor nodes) stack entries)
    (computed : AllComputedAt nodes trees taken) :
    Yields arguments nodes (popNodes place count stack taken) fun popped after => after = nodes ∧
      ∃ inputs rest, popTrees count entries trees = some (inputs, rest) ∧
        AllComputedAt nodes inputs popped.1 ∧ List.Forall₂ (StandsFor nodes) popped.2 rest := by
  induction count generalizing stack entries taken trees with
  | zero => exact yields_pure ⟨rfl, trees, entries, rfl, computed, agree⟩
  | succ count ih =>
      refine yields_bind (yields_popNode place agree) ?_
      rintro popped _ _ ⟨rfl, tree, rest, read, computedTop, agreeRest⟩
      have both : AllComputedAt _ (tree :: trees) (popped.1 :: taken) := ⟨computedTop, computed⟩
      have others := ih (tree :: trees) agreeRest both
      simpa only [popTrees, read, Option.bind_eq_bind, Option.bind_some] using others

/-- A node that is pushed computes the expression that is pushed. -/
theorem yields_pushed {build : Build Nat} {tree : ArrayTree}
    (agree : List.Forall₂ (StandsFor nodes) stack entries)
    (computed : Yields arguments nodes build fun position after => tree.ComputedAt after position) :
    Yields arguments nodes (do return .node (← build) :: stack) fun left after =>
      List.Forall₂ (StandsFor after) left (.tree tree :: entries) := by
  refine yields_bind computed fun position after kept there => yields_pure (.cons there ?_)
  exact agree.imp fun _ _ stands => stands.extend kept

variable {heap : Heap} {functions : Table}

/-- What lowering leaves on the stack stands for what reading leaves. -/
theorem yields_instruction {instruction : Instruction}
    (inner : ∀ part, instruction = .nested part → ∀ nodes,
      Yields arguments nodes (lowerProgram heap arguments functions [] part) fun position after =>
        ∃ tree, readProgram heap arguments [] part = some tree ∧ tree.ComputedAt after position)
    (agree : List.Forall₂ (StandsFor nodes) stack entries) :
    Yields arguments nodes (lowerInstruction heap arguments functions stack instruction)
      fun left after => ∃ read, readInstruction heap arguments entries instruction = some read ∧
        List.Forall₂ (StandsFor after) left read := by
  cases instruction with
  | literal value =>
      conv => arg 3; whnf
      split
      next constant known =>
        refine yields_weaken (yields_pushed agree (yields_share [] trivial
          (by simp [NodeOperation.arity?]) (by simp))) ?_
        intro left after stands
        exact ⟨_, ArrayTree.read_literal known, stands⟩
      next => exact yields_unsupported _
  | name name =>
      change Yields _ _ (if name ∈ arguments then _
        else if name ∈ arrayFunctions ∧ functions.holds name then _ else _) _
      split
      next given =>
        refine yields_weaken (yields_pushed agree (yields_share [] trivial
          (by simp [NodeOperation.arity?]) (by simpa using given))) ?_
        intro left after stands
        exact ⟨_, ArrayTree.read_argument given, stands⟩
      next free =>
        split
        · exact yields_pure ⟨.function name :: entries, ArrayTree.read_function free,
            .cons rfl agree⟩
        · exact yields_unsupported _
  | unary symbol =>
      change Yields _ _ (if symbol ∈ unaryArrayOperators then _ else _) _
      split
      · refine yields_bind (yields_popNode symbol agree) ?_
        rintro operand _ _ ⟨rfl, tree, rest, read, computed, agreeRest⟩
        refine yields_weaken (yields_pushed agreeRest (yields_share [tree]
          ⟨computed, trivial⟩ (by simp [NodeOperation.arity?]) (by simp))) ?_
        intro left after stands
        exact ⟨_, ArrayTree.read_unary read, stands⟩
      · exact yields_refused _ _
  | binary symbol =>
      change Yields _ _ (if symbol ∈ binaryArrayOperators then _ else _) _
      split
      · refine yields_bind (yields_popNode symbol agree) ?_
        rintro right _ _ ⟨rfl, second, rest, read, computed, agreeRest⟩
        refine yields_bind (yields_popNode symbol agreeRest) ?_
        rintro left _ _ ⟨rfl, first, under, readFirst, computedFirst, agreeUnder⟩
        refine yields_weaken (yields_pushed agreeUnder (yields_share [first, second]
          ⟨computedFirst, computed, trivial⟩ (by simp [NodeOperation.arity?]) (by simp))) ?_
        intro left after stands
        exact ⟨_, ArrayTree.read_binary read readFirst, stands⟩
      · exact yields_refused _ _
  | ternary symbol =>
      change Yields _ _ (if symbol = Text.ofString "?" then _ else _) _
      split
      · refine yields_bind (yields_popNode symbol agree) ?_
        rintro no _ _ ⟨rfl, third, rest, read, computed, agreeRest⟩
        refine yields_bind (yields_popNode symbol agreeRest) ?_
        rintro yes _ _ ⟨rfl, second, under, readSecond, computedSecond, agreeUnder⟩
        refine yields_bind (yields_popNode symbol agreeUnder) ?_
        rintro condition _ _ ⟨rfl, first, base, readFirst, computedFirst, agreeBase⟩
        refine yields_weaken (yields_pushed agreeBase (yields_share
          [first, second, third] ⟨computedFirst, computedSecond, computed, trivial⟩
          (by simp [NodeOperation.arity?]) (by simp))) ?_
        intro left after stands
        exact ⟨_, ArrayTree.read_ternary read readSecond readFirst, stands⟩
      · exact yields_refused _ _
  | call count =>
      refine yields_bind (yields_popNodes _ count.toNat [] agree trivial) ?_
      rintro ⟨positions, stack⟩ _ _ ⟨rfl, inputs, rest, read, computed, agreeRest⟩
      cases agreeRest with
      | nil => rintro _ _ _ ⟨⟩
      | @cons entry other stack rest stands agreeRest =>
          cases entry with
          | node position => exact yields_unsupported _
          | function name =>
              cases other with
              | tree tree => cases stands
              | function other =>
                  obtain rfl : name = other := stands
                  refine yields_weaken (yields_pushed agreeRest (yields_share inputs computed
                    (by simp [NodeOperation.arity?]) (by simp))) ?_
                  intro left after stands
                  exact ⟨_, ArrayTree.read_call read, stands⟩
  | array count =>
      refine yields_bind (yields_popNodes _ count.toNat [] agree trivial) ?_
      rintro positions _ _ ⟨rfl, inputs, rest, read, computed, agreeRest⟩
      refine yields_weaken (yields_pushed agreeRest (yields_share inputs computed
        (by simp [NodeOperation.arity?]) (by simp))) ?_
      intro left after stands
      exact ⟨_, ArrayTree.read_array read, stands⟩
  | nested part =>
      refine yields_bind (inner part rfl nodes) ?_
      rintro position after kept ⟨tree, read, computed⟩
      refine yields_pure ⟨.tree tree :: entries, ArrayTree.read_nested read,
        .cons computed ?_⟩
      exact agree.imp fun _ _ stands => stands.extend kept
  | discard =>
      cases agree with
      | nil => rintro _ _ _ ⟨⟩
      | cons stands agree => exact yields_pure ⟨_, rfl, agree⟩
  | target name => exact yields_unsupported _
  | define count => exact yields_unsupported _
  | member name => exact yields_unsupported _
  | suspended part => exact yields_unsupported _

/-- The node that a program is lowered to computes the expression that the program is. -/
theorem yields_program (program : List Instruction) {nodes : Array Node} {stack : Stack}
    {entries : List ArrayTree.Entry} (agree : List.Forall₂ (StandsFor nodes) stack entries) :
    Yields arguments nodes (lowerProgram heap arguments functions stack program)
      fun position after => ∃ tree, readProgram heap arguments entries program = some tree ∧
        tree.ComputedAt after position := by
  cases program with
  | nil =>
      cases agree with
      | nil => exact yields_unsupported _
      | @cons entry other stack rest stands agree =>
          cases agree with
          | cons => exact yields_unsupported _
          | nil =>
              cases entry with
              | function name => exact yields_unsupported _
              | node position =>
                  cases other with
                  | function name => cases stands
                  | tree tree => exact yields_pure ⟨tree, by simp [readProgram], stands⟩
  | cons first rest =>
      have inner (part : Program) (_ : first = .nested part) (nodes : Array Node) :
          Yields arguments nodes (lowerProgram heap arguments functions [] part)
            fun position after => ∃ tree, readProgram heap arguments [] part = some tree ∧
              tree.ComputedAt after position := yields_program part .nil
      refine yields_bind (yields_instruction inner agree) ?_
      rintro left after - ⟨read, known, stands⟩
      simpa [readProgram, known] using yields_program rest stands

end Lowering

end Formula
