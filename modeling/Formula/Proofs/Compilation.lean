import Formula.Proofs.Blindness
import Formula.Proofs.Knowledge
import Formula.Proofs.Recursion

/-!
The machine on the program of a term does what recursion on the term does. A world of recursion stands
for a state of the machine, with a program for each body of a function; step by step, both come to the
same result and to states that go together.
-/

namespace Formula

namespace Machine

/-! What the machine does with the operands of some terms, and with names to bind. -/

variable {machine : Perform} {frame : Frame}

theorem steps_last (program : Program) (instruction : Instruction) (stack : Stack) :
    steps machine frame (program ++ [instruction]) stack =
      steps machine frame program stack >>= step machine frame instruction := by
  simp only [steps_append, steps, bind_pure]

theorem popResolved_add (first second : Nat) (stack : Stack) (taken : List Value) :
    popResolved machine frame (first + second) stack taken =
      popResolved machine frame first stack taken >>= fun (taken, stack) =>
        popResolved machine frame second stack taken := by
  induction first generalizing stack taken with
  | zero => simp [popResolved]
  | succ first ih => simp only [Nat.succ_add, popResolved, ih, bind_assoc]

theorem popMany_add (first second : Nat) (stack : Stack) (taken : List Operand) :
    popMany (first + second) stack taken =
      popMany first stack taken >>= fun (taken, stack) =>
        popMany second stack taken := by
  induction first generalizing stack taken with
  | zero => simp [popMany]
  | succ first ih => simp only [Nat.succ_add, popMany, ih, bind_assoc]

theorem popMany_reverse (operands : List Operand) (stack : Stack) (taken : List Operand) :
    popMany operands.length (operands.reverse ++ stack) taken =
      pure (operands ++ taken, stack) := by
  induction operands generalizing stack with
  | nil => rfl
  | cons operand rest ih =>
      rw [List.length_cons, List.reverse_cons, List.append_assoc, List.singleton_append, popMany_add,
        ih (operand :: stack)]
      rfl

theorem steps_targets (names : List Text) (stack : Stack) :
    steps machine frame (names.map .target) stack =
      pure ((names.map fun name => .value (.text name)).reverse ++ stack) := by
  induction names generalizing stack with
  | nil => rfl
  | cons name rest ih =>
      simp only [List.map_cons, steps, step, pure_bind, ih, List.reverse_cons,
        List.append_assoc, List.singleton_append]

theorem steps_call (terms : List Term) (stack : Stack) :
    steps machine frame (Term.codeAll terms ++ [.call terms.length]) stack =
      (steps machine frame (Term.codeAll terms) stack >>= fun stack =>
        popResolved machine frame terms.length stack []) >>= fun (arguments, stack) =>
          pop stack >>= fun (callee, stack) => do
            let function ← resolve machine frame callee
            return .value (← callTrusted machine frame function arguments) :: stack := by
  rw [steps_last, bind_assoc]
  rfl

theorem steps_array (terms : List Term) (stack : Stack) :
    steps machine frame (Term.codeAll terms ++ [.array terms.length]) stack =
      (steps machine frame (Term.codeAll terms) stack >>= fun stack =>
        popResolved machine frame terms.length stack []) >>= fun (items, stack) => do
          return .value (← Eval.act (Action.newList items)) :: stack := by
  rw [steps_last, bind_assoc]
  rfl

theorem steps_define (name : Text) (parameters : List Text) (body : Term) (stack : Stack) :
    steps machine frame (Term.define name parameters body).code stack = do
      return .value (← define frame (.text name)
        (parameters.map fun name => .value (.text name)) (.suspended body.code)) :: stack := by
  have targets : (.target name :: parameters.map .target : Program) = (name :: parameters).map .target := rfl
  have taken := popMany_reverse (parameters.map fun name => Operand.value (.text name))
    (.value (.text name) :: stack) []
  rw [List.length_map, List.append_nil] at taken
  rw [Term.code, targets, steps_append, steps_targets]
  simp only [steps, step, pop, pure_bind, bind_pure, Int.toNat_natCast,
    List.map_cons, List.reverse_cons, List.append_assoc, List.singleton_append, taken]
  rfl

theorem steps_discard (first rest : Program) (stack : Stack) :
    steps machine frame (first ++ .discard :: rest) stack =
      steps machine frame first stack >>= fun stack =>
        pop stack >>= fun (_, stack) => steps machine frame rest stack := by
  rw [steps_append]
  simp only [steps, step, bind_assoc, pure_bind]

end Machine

namespace Recursion

/-- The program that runs when the value of something deferred is asked for. -/
def Deferred.code : Deferred → Program
  | .whole term => term.code
  | .statements first rest => first.code ++ .discard :: rest.code

def Part.compiled : Part → Operand
  | .value known => .value known
  | .deferred later => .suspended later.code

def Closure.compiled (closure : Closure) : DefinedFunction where
  name := closure.name
  parameters := closure.parameters.map .text
  body := .suspended closure.body.code
  dialect := closure.dialect
  scope := closure.scope

/-- The state of the machine that a world stands for. -/
def World.compiled (world : World) : State :=
  world.state.withFunctions (world.closures.map Closure.compiled)

def Task.compiled : Task → Request
  | .run dialect deferred scope => .run dialect deferred.code scope
  | .call function arguments => .call function arguments

/-- A computation by recursion and one of the machine that do the same: both run out of fuel, or both
come to an end with one failure or with a result and its image, in states that go together. -/
def Tracks {α β : Type} (image : α → β) (tree : Compute α) (machine : Eval β) : Prop :=
  ∀ world, machine world.compiled =
    (tree world).map fun came => (came.1.map image, came.2.compiled)

section

variable {α β γ δ : Type} {image : α → β}

theorem tracks_pure (value : α) : Tracks image (pure value) (pure (image value)) := fun _ => rfl

theorem tracks_throw (failure : Failure) : Tracks image (throw failure) (throw failure) := fun _ => rfl

theorem tracks_bind {tree : Compute α} {machine : Eval β} {next : α → Compute γ} {later : β → Eval δ}
    {result : γ → δ} (first : Tracks image tree machine)
    (rest : ∀ value, Tracks result (next value) (later (image value))) :
    Tracks result (tree >>= next) (machine >>= later) := by
  intro world
  rw [bind_run, bind_run, first]
  rcases tree world with _ | ⟨_ | value, after⟩
  · rfl
  · rfl
  · exact rest value after

/-- Two computations that go on alike after a look at the state. -/
theorem tracks_get {next : World → Compute α} {later : State → Eval β}
    (rest : ∀ world, Tracks image (next world) (later world.compiled)) :
    Tracks image (get >>= next) (get >>= later) := by
  intro world
  rw [Eval.get_bind_apply, bind_run]
  exact rest world world

theorem tracks_ofEval {computation : Eval α} (blind : computation.Blind) :
    Tracks id (ofEval computation) computation := by
  intro world
  rw [World.compiled, blind, ofEval]
  rcases computation world.state with _ | ⟨_ | value, after⟩ <;> rfl

end

theorem compiled_truth (world : World) (value : Value) :
    world.compiled.heap.truth value = world.state.heap.truth value :=
  Heap.withFunctions_truth ..

theorem compiled_size (world : World) : world.compiled.heap.functions.size = world.closures.size :=
  Array.size_map

theorem compiled_function? (world : World) (place : Nat) :
    world.compiled.heap.function? place = (world.closures[place]?).map Closure.compiled :=
  Array.getElem?_map ..

/-- A closure joins a world as its compiled function joins the state. -/
theorem compiled_define (world : World) (closure : Closure) :
    (world.define closure).compiled = world.compiled.define closure.scope closure.compiled := by
  have functions : (world.closures.push closure).map Closure.compiled =
      world.compiled.heap.functions.push closure.compiled := Array.map_push
  rw [World.compiled, World.define, State.withFunctions_bind, functions, State.define, compiled_size]
  rfl

theorem enter_apply (closure : Closure) (arguments : List Value) (state : State) :
    enter closure arguments state =
      match Machine.overlay state.heap (closure.parameters.map .text) arguments
        (state.heap.entries closure.scope) with
      | .error failure => some (.error failure, state)
      | .ok entries =>
        some (.ok state.heap.maps.size, { state with heap := (state.heap.addMap entries).2 }) := by
  unfold enter
  rw [Eval.get_bind_apply, Eval.bind_apply, Eval.lift_apply]
  cases Machine.overlay state.heap (closure.parameters.map .text) arguments
    (state.heap.entries closure.scope) <;> rfl

theorem blind_enter (closure : Closure) (arguments : List Value) : (enter closure arguments).Blind := by
  intro state functions
  rw [enter_apply, enter_apply, State.withFunctions, Machine.overlay_withFunctions,
    Heap.withFunctions_entries]
  cases Machine.overlay state.heap (closure.parameters.map .text) arguments
    (state.heap.entries closure.scope) <;> rfl

open Machine (Frame Stack withIndex)

section

variable (frame : Frame)

theorem tracks_named (part : Part) : Tracks id (named part) (Machine.unresolved part.compiled) := by
  cases part with
  | value value => exact tracks_pure _
  | deferred deferred => exact tracks_ofEval (Eval.blind_refuse _)

theorem tracks_operator (table : Dialect → Table) (symbol : Text) :
    Tracks id (ofEval (Machine.operator table frame symbol)) (Machine.operator table frame symbol) :=
  tracks_ofEval (Machine.blind_operator table frame symbol)

theorem tracks_define (name : Text) (parameters : List Text) (body : Term) :
    Tracks id (define frame name parameters body)
      (Machine.define frame (.text name) (parameters.map fun name => .value (.text name))
        (.suspended body.code)) := by
  intro world
  have texts : (parameters.map fun name => Operand.value (.text name)).all Machine.define.isText = true := by
    simp [Machine.define.isText]
  have compiled : (⟨name, (parameters.map fun name => Operand.value (.text name)).map
      Machine.define.valueOf, .suspended body.code, frame.dialect, frame.scope⟩ : DefinedFunction) =
      (⟨name, parameters, body, frame.dialect, frame.scope⟩ : Closure).compiled := by
    simp [Closure.compiled, Machine.define.valueOf]
  have defined := compiled_define world ⟨name, parameters, body, frame.dialect, frame.scope⟩
  rw [Machine.define_apply, if_pos texts, compiled, compiled_size, ← defined]
  rfl

/-- A value that both come to is pushed. -/
theorem tracks_pushed {one : Compute Value} {other : Eval Value} (same : Tracks id one other)
    (stack : Stack) :
    Tracks (fun part : Part => part.compiled :: stack) (do return .value (← one))
      (do return Operand.value (← other) :: stack) :=
  tracks_bind same fun value => tracks_pure (Part.value value)

end

section

/-- Ways to carry out tasks and to answer requests that do the same. -/
def Follows (tree : Perform) (machine : Machine.Perform) : Prop :=
  ∀ task, Tracks id (tree task) (machine task.compiled)

variable {tree : Perform} {machine : Machine.Perform} (follows : Follows tree machine)

include follows

theorem tracks_each (function : Value) (arguments : List Value) (index : Nat) :
    Tracks id (tree (.call function (withIndex function arguments index)))
      (Machine.callWithIndex machine function arguments index) :=
  follows (.call function (withIndex function arguments index))

theorem tracks_mapFrom (function : Value) (place index remaining : Nat) :
    Tracks id (mapFrom tree function place index remaining)
      (Machine.mapFrom machine function place index remaining) := by
  induction remaining generalizing index with
  | zero => exact tracks_pure _
  | succ remaining ih =>
      refine tracks_bind (tracks_ofEval (Machine.blind_element place index)) fun item => ?_
      refine tracks_bind (tracks_each follows function [item] index) fun result => ?_
      exact tracks_bind (ih (index + 1)) fun results => tracks_pure _

theorem tracks_filterFrom (function : Value) (place index remaining : Nat) :
    Tracks id (filterFrom tree function place index remaining)
      (Machine.filterFrom machine function place index remaining) := by
  induction remaining generalizing index with
  | zero => exact tracks_pure _
  | succ remaining ih =>
      refine tracks_bind (tracks_ofEval (Machine.blind_element place index)) fun item => ?_
      refine tracks_bind (tracks_each follows function [item] index) fun verdict => ?_
      refine tracks_get fun world => ?_
      simp only [id, compiled_truth]
      exact tracks_bind (ih (index + 1)) fun others => tracks_pure _

theorem tracks_foldFrom (function : Value) (place index : Nat) (total : Value) (remaining : Nat) :
    Tracks id (foldFrom tree function place index total remaining)
      (Machine.foldFrom machine function place index total remaining) := by
  induction remaining generalizing index total with
  | zero => exact tracks_pure _
  | succ remaining ih =>
      refine tracks_bind (tracks_ofEval (Machine.blind_element place index)) fun item => ?_
      exact tracks_bind (tracks_each follows function [total, item] index) fun total => ih _ total

theorem tracks_callBuiltin (function : Builtin) (arguments : List Value) :
    Tracks id (callBuiltin tree function arguments)
      (Machine.callBuiltin machine function arguments) := by
  unfold Machine.callBuiltin
  split
  · rename_i function collection
    rw [callBuiltin]
    refine tracks_bind (tracks_ofEval (Machine.blind_traversed _ _ _)) fun found => ?_
    obtain ⟨place, size⟩ := found
    refine tracks_bind (tracks_mapFrom follows function place 0 size) fun results => ?_
    exact tracks_ofEval (Eval.blind_newList results)
  · rename_i function collection
    rw [callBuiltin]
    refine tracks_bind (tracks_ofEval (Machine.blind_traversed _ _ _)) fun found => ?_
    obtain ⟨place, size⟩ := found
    refine tracks_bind (tracks_filterFrom follows function place 0 size) fun results => ?_
    exact tracks_ofEval (Eval.blind_newList results)
  · rename_i function first collection
    rw [callBuiltin]
    refine tracks_bind (tracks_ofEval (Machine.blind_traversed _ _ _)) fun found => ?_
    obtain ⟨place, size⟩ := found
    exact tracks_foldFrom follows function place 0 first size
  · exact tracks_ofEval (Machine.blind_random _)
  · exact tracks_ofEval (Machine.blind_random _)
  · rename_i noMap noFilter noFold noRandom noScaled
    -- No traversal and no random number: the same action on both sides.
    rw [callBuiltin.eq_6 tree function arguments noMap noFilter noFold noRandom noScaled]
    exact tracks_ofEval (Eval.blind_apply function arguments)

theorem tracks_callDefined (closure : Closure) (arguments : List Value) :
    Tracks id (do
        let scope ← ofEval (enter closure arguments)
        tree (.run closure.dialect (.whole closure.body) scope))
      (Machine.callDefined machine closure.compiled arguments) := by
  have entered : Machine.callDefined machine closure.compiled arguments =
      enter closure arguments >>= fun scope =>
        machine (.run closure.dialect closure.body.code scope) := by
    simp only [enter, Machine.callDefined, bind_assoc, pure_bind]
    rfl
  rw [entered]
  exact tracks_bind (tracks_ofEval (blind_enter closure arguments))
    fun scope => follows (.run closure.dialect (.whole closure.body) scope)

theorem tracks_call (function : Value) (arguments : List Value) :
    Tracks id (call tree function arguments) (Machine.call machine function arguments) := by
  cases function with
  | builtin function => exact tracks_callBuiltin follows function arguments
  | defined place =>
      refine tracks_get fun world => ?_
      rw [compiled_function?]
      cases world.closures[place]? with
      | none => exact tracks_ofEval (Eval.blind_refuse _)
      | some closure => exact tracks_callDefined follows closure arguments
  | host serial name => exact tracks_pure _
  | _ => exact tracks_ofEval (Eval.blind_refuse _)

variable (frame : Frame)

theorem tracks_resolve (part : Part) :
    Tracks id (resolve tree frame part) (Machine.resolve machine frame part.compiled) := by
  cases part with
  | value value => exact tracks_pure _
  | deferred deferred => exact follows (.run frame.dialect deferred frame.scope)

theorem tracks_holds (part : Part) :
    Tracks id (holds tree frame part) (Machine.holds machine frame part.compiled) := by
  refine tracks_bind (tracks_resolve follows frame part) fun value => ?_
  refine tracks_get fun world => ?_
  simp only [id, compiled_truth]
  exact tracks_pure _

theorem tracks_binary (symbol : Text) (left right : Part) :
    Tracks id (binary tree frame symbol left right)
      (Machine.binary machine frame symbol left.compiled right.compiled) := by
  unfold binary Machine.binary
  split
  · refine tracks_bind (tracks_holds follows frame left) fun met => ?_
    cases met with
    | true => exact tracks_bind (tracks_holds follows frame right) fun met => tracks_pure _
    | false => exact tracks_pure _
  · split
    · refine tracks_bind (tracks_holds follows frame left) fun met => ?_
      cases met with
      | true => exact tracks_pure _
      | false => exact tracks_bind (tracks_holds follows frame right) fun met => tracks_pure _
    · split
      · refine tracks_bind (tracks_operator frame _ symbol) fun function => ?_
        refine tracks_bind (tracks_resolve follows frame right) fun value => ?_
        refine tracks_bind (tracks_named left) fun name => ?_
        exact follows (.call function [name, value, .map frame.scope])
      · refine tracks_bind (tracks_operator frame _ symbol) fun function => ?_
        refine tracks_bind (tracks_resolve follows frame left) fun one => ?_
        refine tracks_bind (tracks_resolve follows frame right) fun other => ?_
        refine tracks_bind (follows (.call function [one, other])) fun result => ?_
        split
        · exact tracks_bind (tracks_ofEval (Eval.blind_guardAgainst _ _ _)) fun _ => tracks_pure _
        · exact tracks_pure _

theorem tracks_assignMember (target : Value) (name : Text) (value : Value) :
    Tracks id (assignMember tree frame target name value)
      (Machine.assignMember machine frame target (.text name) value) := by
  have same : Machine.assignMember.isReserved (.text name) = Text.isReserved name := rfl
  unfold assignMember Machine.assignMember
  rw [same]
  cases Text.isReserved name with
  | true => exact tracks_throw _
  | false =>
      cases target with
      | map place =>
          refine tracks_bind (tracks_operator frame _ _) fun function => ?_
          exact follows (.call function [.map place, .text name, value])
      | _ => exact tracks_throw _

theorem tracks_callTrusted (function : Value) (arguments : List Value) :
    Tracks id (callTrusted tree frame function arguments)
      (Machine.callTrusted machine frame function arguments) := by
  unfold callTrusted Machine.callTrusted
  cases function.isCallable with
  | false => exact tracks_throw _
  | true =>
      refine tracks_bind (tracks_ofEval (Eval.blind_guardAgainst .call frame.dialect function)) fun _ => ?_
      refine tracks_bind (tracks_ofEval (Machine.blind_guardAll frame arguments)) fun _ => ?_
      exact follows (.call function arguments)

/-! Terms. -/

mutual

/-- Running the program of a term pushes the operand for the part that the term comes to. -/
theorem tracks_part (term : Term) (stack : Stack) :
    Tracks (fun part => part.compiled :: stack) (part tree frame term)
      (Machine.steps machine frame term.code stack) := by
  match term with
  | .literal value => exact tracks_pure (Part.value value)
  | .name name =>
      simp only [part, Term.code, Machine.steps, Machine.step, bind_pure]
      exact tracks_pushed (tracks_ofEval (Machine.blind_lookup frame name)) stack
  | .unary symbol operand =>
      simp only [part, Term.code, Machine.steps_last]
      refine tracks_bind (tracks_part operand stack) fun operand => ?_
      simp only [Machine.step, Machine.pop, pure_bind]
      refine tracks_bind (tracks_operator frame _ symbol) fun function => ?_
      refine tracks_bind (tracks_resolve follows frame operand) fun value => ?_
      exact tracks_pushed (follows (.call function [value])) stack
  | .binary symbol left right =>
      simp only [part, Term.code, Machine.steps_append, bind_assoc]
      refine tracks_bind (tracks_part left stack) fun left => ?_
      refine tracks_bind (tracks_part right _) fun right => ?_
      simp only [Machine.steps, Machine.step, Machine.pop, pure_bind, bind_pure]
      exact tracks_pushed (tracks_binary follows frame symbol left right) stack
  | .shortCircuit symbol left right =>
      simp only [part, Term.code, Machine.steps_append]
      refine tracks_bind (tracks_part left stack) fun left => ?_
      -- The right side is pushed as a program: whether it runs is up to the operator.
      simp only [Machine.steps, Machine.step, Machine.pop, pure_bind, bind_pure]
      exact tracks_pushed (tracks_binary follows frame symbol left (.deferred (.whole right))) stack
  | .conditional condition yes no =>
      simp only [part, Term.code, Machine.steps_append]
      refine tracks_bind (tracks_part condition stack) fun condition => ?_
      simp only [Machine.steps, Machine.step, Machine.pop, pure_bind, bind_pure]
      rw [Machine.ternary, if_pos (show Term.conditionSymbol = Text.ofString "?" from rfl), bind_assoc]
      refine tracks_bind (tracks_holds follows frame condition) fun met => ?_
      cases met with
      | true => exact tracks_pushed (tracks_resolve follows frame (.deferred (.whole yes))) stack
      | false => exact tracks_pushed (tracks_resolve follows frame (.deferred (.whole no))) stack
  | .assign name value =>
      simp only [part, Term.code, Machine.steps, Machine.step, Machine.pop, pure_bind, bind_pure]
      exact tracks_pushed (tracks_binary follows frame Term.assignSymbol (.value (.text name))
        (.deferred (.whole value))) stack
  | .assignMember object name value =>
      simp only [part, Term.code, Machine.steps_append]
      refine tracks_bind (tracks_part object stack) fun object => ?_
      simp only [Machine.steps, Machine.step, Machine.pop, pure_bind, bind_pure]
      rw [Machine.ternary, if_neg (by decide : Term.assignSymbol ≠ Text.ofString "?"),
        if_pos (show Term.assignSymbol = Text.ofString "=" from rfl)]
      simp only [bind_assoc]
      refine tracks_bind (tracks_resolve follows frame object) fun target => ?_
      refine tracks_bind (tracks_resolve follows frame (.deferred (.whole value))) fun value => ?_
      exact tracks_pushed (tracks_assignMember follows frame target name value) stack
  | .define name parameters body =>
      rw [part, Machine.steps_define]
      exact tracks_pushed (tracks_define frame name parameters body) stack
  | .call callee arguments =>
      rw [part, Term.code, List.append_assoc, Machine.steps_append]
      refine tracks_bind (tracks_part callee stack) fun callee => ?_
      -- The callee lies below its arguments, so it is resolved after them.
      rw [Machine.steps_call, ← bind_assoc]
      refine tracks_bind (tracks_operands arguments (callee.compiled :: stack) []) fun values => ?_
      simp only [Machine.pop, pure_bind, List.append_nil]
      exact tracks_bind (tracks_resolve follows frame callee) fun function =>
        tracks_pushed (tracks_callTrusted follows frame function _) stack
  | .member object name =>
      simp only [part, Term.code, Machine.steps_last]
      refine tracks_bind (tracks_part object stack) fun object => ?_
      simp only [Machine.step, Machine.pop, pure_bind]
      refine tracks_bind (tracks_resolve follows frame object) fun target => ?_
      exact tracks_pushed (tracks_ofEval (Machine.blind_readMember frame target name)) stack
  | .array items =>
      rw [part, Term.code, Machine.steps_array, ← bind_assoc]
      refine tracks_bind (tracks_operands items stack []) fun values => ?_
      rw [List.append_nil]
      exact tracks_pushed (tracks_ofEval (Eval.blind_newList values)) stack
  | .statement body => exact tracks_pure (Part.deferred (.whole body))
  | .sequence first rest => exact tracks_pure (Part.deferred (.statements first rest))

/-- Operands are pushed from left to right, and resolved as they are taken, from right to left. -/
theorem tracks_operands (terms : List Term) (stack : Stack) (taken : List Value) :
    Tracks (fun values => (values ++ taken, stack))
      (parts tree frame terms >>= resolveAll tree frame)
      (Machine.steps machine frame (Term.codeAll terms) stack >>= fun stack =>
        Machine.popResolved machine frame terms.length stack taken) := by
  match terms with
  | [] => exact tracks_pure _
  | term :: rest =>
      simp only [parts, resolveAll, Term.codeAll, Machine.steps_append, List.length_cons, bind_assoc,
        pure_bind, Machine.popResolved_add]
      refine tracks_bind (tracks_part term stack) fun part => ?_
      -- The first operand lies lowest: all others are taken, and run, before it.
      rw [← bind_assoc, ← bind_assoc]
      refine tracks_bind (tracks_operands rest (part.compiled :: stack) taken) fun values => ?_
      simp only [Machine.popResolved, Machine.pop, pure_bind]
      exact tracks_bind (tracks_resolve follows frame part) fun value => tracks_pure (value :: values)

end

/-- Running the program of something deferred comes to its value. -/
theorem tracks_run (deferred : Deferred) :
    Tracks id (run tree frame deferred) (Machine.run machine frame deferred.code) := by
  have last (part : Part) : Tracks id (do return Machine.unsigned (← resolve tree frame part))
      (do return Machine.unsigned (← Machine.resolve machine frame part.compiled)) :=
    tracks_bind (tracks_resolve follows frame part) fun value => tracks_pure (Machine.unsigned value)
  cases deferred with
  | whole term => exact tracks_bind (tracks_part follows frame term []) last
  | statements first rest =>
      rw [run, Machine.run, Deferred.code, Machine.steps_discard, bind_assoc]
      refine tracks_bind (tracks_part follows frame first []) fun dropped => ?_
      simp only [Machine.pop, pure_bind]
      exact tracks_bind (tracks_part follows frame rest []) last

end

theorem follows_fulfil {tree : Perform} {machine : Machine.Perform} (follows : Follows tree machine) :
    Follows (fulfil tree) (Machine.fulfil machine) := by
  intro task
  cases task with
  | run dialect deferred scope => exact tracks_run follows ⟨dialect, scope⟩ deferred
  | call function arguments => exact tracks_call follows function arguments

theorem follows_perform (depth : Nat) : Follows (perform depth) (Machine.perform depth) := by
  induction depth with
  | zero => exact fun _ _ => rfl
  | succ depth ih => exact follows_fulfil ih

variable {depth : Nat} {task : Task} {world later : World} {outcome : Except Failure Value}

theorem perform_compiled (came : perform depth task world = some (outcome, later)) :
    Machine.perform depth task.compiled world.compiled = some (outcome, later.compiled) := by
  rw [follows_perform depth task world, came]
  cases outcome <;> rfl

/-- What the machine comes to, recursion comes to. -/
theorem perform_of_compiled {after : State}
    (came : Machine.perform depth task.compiled world.compiled = some (outcome, after)) :
    ∃ later, perform depth task world = some (outcome, later) ∧ later.compiled = after := by
  rw [follows_perform depth task world] at came
  obtain ⟨⟨result, later⟩, found, same⟩ := Option.map_eq_some_iff.mp came
  cases result <;> cases same <;> exact ⟨later, found, rfl⟩

end Recursion

end Formula
