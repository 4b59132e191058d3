import Formula.Machine
import Formula.Proofs.Evaluation
import Formula.Proofs.Operation

/-!
Two runs of the machine side by side. A correspondence says which states, values, calls and programs
go together as the runs proceed; whatever one run comes to, the other comes to as well. Its worlds
hold what has become known so far: knowledge only grows.
-/

namespace Formula

/-- The state with other functions in its heap. -/
def State.withFunctions (state : State) (functions : Array DefinedFunction) : State :=
  { state with heap := state.heap.withFunctions functions }

/-- Whether a function makes a list out of what it calls on each element. -/
def Value.gathers : Value → Bool
  | .builtin .map | .builtin .filter => true
  | _ => false

namespace Machine

/-- The arguments of a call on an element. -/
def withIndex (function : Value) (arguments : List Value) (index : Nat) : List Value :=
  let takesIndex := match function with
    | .builtin builtin => builtin.arity.takesIndex && builtin.arity.accepts (arguments.length + 1)
    | _ => true
  if takesIndex then arguments ++ [.int index] else arguments

/-- What goes together in two runs. -/
structure Relations where
  World : Type
  reaches : World → World → Prop
  states : World → State → State → Prop
  /-- Values that may be stored, passed on and given out. -/
  values : World → Value → Prop
  /-- Callables that a test of trust has let through. -/
  trusted : World → Value → Prop
  calls : World → Value → List Value → Prop
  /-- Functions that a fold may call on a total. -/
  carries : World → Value → Value → Prop
  frames : World → Frame → Prop
  programs : World → Frame → Program → Program → Prop
  /-- Names that a program may bind. -/
  binds : World → Frame → Operand → Prop

namespace Relations

variable (relations : Relations)

/-- Outcomes that go together: related results, or one failure. -/
inductive Outcomes {α β : Type} (post : α → β → Prop) :
    Except Failure α → Except Failure β → Prop
  | ok {left : α} {right : β} (related : post left right) : Outcomes post (.ok left) (.ok right)
  | error (failure : Failure) : Outcomes post (.error failure) (.error failure)

/-- What one computation comes to on a state, the other comes to on its counterpart. -/
def From {α β : Type} (world : relations.World) (state other : State) (left : Eval α)
    (right : Eval β) (post : relations.World → α → β → Prop) : Prop :=
  ∀ outcome after, left state = some (outcome, after) →
    ∃ later found reached, relations.reaches world later ∧ right other = some (found, reached) ∧
      relations.states later after reached ∧ Outcomes (post later) outcome found

/-- What one computation comes to on any state, the other comes to on any counterpart. -/
def Tracks {α β : Type} (world : relations.World) (left : Eval α) (right : Eval β)
    (post : relations.World → α → β → Prop) : Prop :=
  ∀ state other, relations.states world state other →
    relations.From world state other left right post

/-- Two results are one and may be given out. -/
def Same (world : relations.World) (left right : Value) : Prop :=
  left = right ∧ relations.values world left

/-- Results of a call: what gathers a list gives no callable. -/
def Answer (function : Value) (world : relations.World) (left right : Value) : Prop :=
  relations.Same world left right ∧ (function.gathers = true → left.isCallable = false)

inductive Operands (world : relations.World) (frame : Frame) : Operand → Operand → Prop
  | value {value : Value} (known : relations.values world value) :
      Operands world frame (.value value) (.value value)
  | suspended {left right : Program} (related : relations.programs world frame left right) :
      Operands world frame (.suspended left) (.suspended right)

/-- A function that may be called on good operands from a world on. -/
def Operates (world : relations.World) (function : Value) : Prop :=
  ∀ later, relations.reaches world later → ∀ arguments,
    (∀ argument ∈ arguments, relations.values later argument) → relations.calls later function arguments

/-- Two functions behind one place, and what calling them leads to. -/
inductive Entered (world : relations.World) (state other : State) (arguments : List Value) :
    Option DefinedFunction → Option DefinedFunction → Prop
  | missing : Entered world state other arguments none none
  | found {left right : DefinedFunction} (parameters : right.parameters = left.parameters)
      (dialect : right.dialect = left.dialect) (scope : right.scope = left.scope)
      (inside : ∀ entries,
        overlay state.heap left.parameters arguments (state.heap.entries left.scope) = .ok entries →
        ∃ later, relations.reaches world later ∧
          relations.states later { state with heap := (state.heap.addMap entries).2 }
            { other with heap := (other.heap.addMap entries).2 } ∧
          relations.frames later ⟨left.dialect, state.heap.maps.size⟩ ∧
          relations.Operands later ⟨left.dialect, state.heap.maps.size⟩ left.body right.body) :
      Entered world state other arguments (some left) (some right)

end Relations

/-- Relations that every step of the machine keeps. -/
structure Correspondence extends Relations where
  reaches_refl : ∀ world, reaches world world
  reaches_trans : ∀ {first second third}, reaches first second → reaches second third →
    reaches first third
  values_later : ∀ {world later value}, reaches world later → values world value → values later value
  trusted_later : ∀ {world later function}, reaches world later → trusted world function →
    trusted later function
  carries_later : ∀ {world later function total}, reaches world later →
    carries world function total → carries later function total
  calls_later : ∀ {world later function arguments}, reaches world later →
    calls world function arguments → calls later function arguments
  frames_later : ∀ {world later frame}, reaches world later → frames world frame → frames later frame
  programs_later : ∀ {world later frame left right}, reaches world later →
    programs world frame left right → programs later frame left right
  binds_later : ∀ {world later frame name}, reaches world later → binds world frame name →
    binds later frame name
  alike : ∀ {world state other}, states world state other →
    ∃ functions, other = state.withFunctions functions
  opened : ∀ world value, value.isGiven = false → values world value
  holds : ∀ {world state other}, states world state other → state.heap.Holds (values world)
  /-- What a table names may be given out. -/
  entry : ∀ {world state other frame name function}, states world state other →
    frames world frame →
    ((state.dialect frame.dialect).functions.get? name = some function ∨
      (state.dialect frame.dialect).unary.get? name = some function) →
    values world function
  trust : ∀ {world state other frame function}, states world state other → frames world frame →
    (state.dialect frame.dialect).trusts function = true →
    ∃ later, reaches world later ∧ states later state other ∧ trusted later function
  calls_trusted : ∀ {world function arguments}, trusted world function → values world function →
    (∀ argument ∈ arguments, values world argument) →
    (∀ argument ∈ arguments, argument.isCallable = true → trusted world argument) →
    calls world function arguments
  operates : ∀ {world state other frame symbol function} {table : Dialect → Table},
    states world state other → frames world frame →
    (table = Dialect.unary ∨
      (table = Dialect.binary ∨ table = Dialect.ternary) ∧ symbol ≠ Text.ofString "=") →
    (table (state.dialect frame.dialect)).get? symbol = some function →
    ∃ later, reaches world later ∧ states later state other ∧
      toRelations.Operates later function
  assigns : ∀ {world state other frame function}, states world state other →
    frames world frame →
    (state.dialect frame.dialect).binary.get? (Text.ofString "=") = some function →
    ∃ later, reaches world later ∧ states later state other ∧
      ∀ last name value, reaches later last → binds last frame (.value name) →
        values last value → calls last function [name, value, .map frame.scope]
  assignsMember : ∀ {world state other frame function}, states world state other →
    frames world frame →
    (state.dialect frame.dialect).ternary.get? (Text.ofString "=") = some function →
    ∃ later, reaches world later ∧ states later state other ∧
      ∀ last target name value, reaches later last → binds last frame (.value name) →
        values last target → values last value → calls last function [target, name, value]
  visits : ∀ {world traversal function collection place item},
    (traversal = .map ∨ traversal = .filter) →
    calls world (.builtin traversal) [function, collection] → function.isCallable = true →
    collection.sequence? = some place → values world item →
    ∀ index, calls world function (withIndex function [item] index)
  folds : ∀ {world function first collection place},
    calls world (.builtin .fold) [function, first, collection] → function.isCallable = true →
    collection.sequence? = some place → values world first ∧ carries world function first
  carries_calls : ∀ {world function total item}, carries world function total →
    values world total → values world item →
    ∀ index, calls world function (withIndex function [total, item] index)
  carries_next : ∀ {world function total next}, carries world function total →
    (function.gathers = true → next.isCallable = false) → carries world function next
  applies : ∀ {world function arguments}, calls world (.builtin function) arguments →
    toRelations.Tracks world (Eval.act (function.apply arguments))
      (Eval.act (function.apply arguments)) toRelations.Same
  acts : ∀ {world action}, Action.Tame (values world) (fun _ => False) (values world) action →
    toRelations.Tracks world (Eval.act action) (Eval.act action) toRelations.Same
  draws : ∀ {world state other}, states world state other →
    states world state.draw.2 other.draw.2
  enters : ∀ {world state other place arguments}, calls world (.defined place) arguments →
    states world state other →
    toRelations.Entered world state other arguments (state.heap.function? place)
      (other.heap.function? place)
  defines : ∀ {world frame name parameters left right}, frames world frame →
    binds world frame name → (∀ parameter ∈ parameters, binds world frame parameter) →
    toRelations.Operands world frame left right →
    toRelations.Tracks world (define frame (define.valueOf name) parameters left)
      (define frame (define.valueOf name) parameters right) toRelations.Same

/-- One way to answer requests keeps in step with another. -/
structure Relations.Follows (relations : Relations) (left right : Perform) : Prop where
  runs : ∀ world frame one two, relations.frames world frame →
    relations.programs world frame one two →
    relations.Tracks world (left (.run frame.dialect one frame.scope))
      (right (.run frame.dialect two frame.scope)) relations.Same
  calls : ∀ world function arguments, relations.calls world function arguments →
    relations.Tracks world (left (.call function arguments)) (right (.call function arguments))
      (relations.Answer function)

namespace Correspondence

variable (rules : Correspondence) {α β γ δ : Type} {world later : rules.World}
  {state other : State} {post : rules.World → α → β → Prop}
  {final : rules.World → γ → δ → Prop}

variable {rules}

theorem from_pure {left : α} {right : β} (states : rules.states world state other)
    (related : post world left right) :
    rules.From world state other (pure left) (pure right) post := by
  intro outcome after found
  cases found
  exact ⟨world, _, _, rules.reaches_refl world, rfl, states, .ok related⟩

theorem from_throw (failure : Failure) (states : rules.states world state other) :
    rules.From world state other (throw failure) (throw failure) post := by
  intro outcome after found
  cases found
  exact ⟨world, _, _, rules.reaches_refl world, rfl, states, .error failure⟩

theorem from_ahead {left : Eval α} {right : Eval β} (reaches : rules.reaches world later)
    (tracked : rules.From later state other left right post) :
    rules.From world state other left right post := by
  intro outcome after found
  obtain ⟨last, counterpart, reached, further, came, states, outcomes⟩ :=
    tracked outcome after found
  exact ⟨last, counterpart, reached, rules.reaches_trans reaches further, came, states, outcomes⟩

theorem from_bind {left : Eval α} {right : Eval β} {leftNext : α → Eval γ} {rightNext : β → Eval δ}
    (first : rules.From world state other left right post)
    (next : ∀ later one two, rules.reaches world later → post later one two →
      rules.Tracks later (leftNext one) (rightNext two) final) :
    rules.From world state other (left >>= leftNext) (right >>= rightNext) final := by
  intro outcome after found
  rw [Eval.bind_apply] at found
  cases came : left state with
  | none => simp [came] at found
  | some reached =>
      obtain ⟨result, between⟩ := reached
      obtain ⟨later, counterpart, reached, reaches, cameRight, states, outcomes⟩ :=
        first result between came
      rw [came] at found
      cases outcomes with
      | error failure =>
          cases found
          refine ⟨later, _, _, reaches, ?_, states, .error failure⟩
          rw [Eval.bind_apply, cameRight]
      | @ok one two related =>
          obtain ⟨last, ending, settled, further, cameLast, statesLast, outcomesLast⟩ :=
            next later one two reaches related between reached states outcome after found
          refine ⟨last, ending, settled, rules.reaches_trans reaches further, ?_, statesLast,
            outcomesLast⟩
          rw [Eval.bind_apply, cameRight]
          exact cameLast

theorem tracks_pure {left : α} {right : β} (related : post world left right) :
    rules.Tracks world (pure left) (pure right) post :=
  fun _ _ states => from_pure states related

theorem tracks_throw (failure : Failure) :
    rules.Tracks world (throw failure) (throw failure) post :=
  fun _ _ states => from_throw failure states

theorem tracks_bind {left : Eval α} {right : Eval β} {leftNext : α → Eval γ}
    {rightNext : β → Eval δ} (first : rules.Tracks world left right post)
    (next : ∀ later one two, rules.reaches world later → post later one two →
      rules.Tracks later (leftNext one) (rightNext two) final) :
    rules.Tracks world (left >>= leftNext) (right >>= rightNext) final :=
  fun state other states => from_bind (first state other states) next

theorem tracks_get {leftNext : State → Eval γ} {rightNext : State → Eval δ}
    (next : ∀ state other, rules.states world state other →
      rules.From world state other (leftNext state) (rightNext other) final) :
    rules.Tracks world (get >>= leftNext) (get >>= rightNext) final := by
  intro state other states outcome after found
  rw [Eval.get_bind_apply] at found
  have tracked := next state other states outcome after found
  simpa only [Eval.get_bind_apply] using tracked

theorem from_weaken {left : Eval α} {right : Eval β} {weaker : rules.World → α → β → Prop}
    (tracked : rules.From world state other left right post)
    (implies : ∀ later one two, rules.reaches world later → post later one two →
      weaker later one two) :
    rules.From world state other left right weaker := by
  intro outcome after found
  obtain ⟨later, counterpart, reached, reaches, came, states, outcomes⟩ :=
    tracked outcome after found
  refine ⟨later, counterpart, reached, reaches, came, states, ?_⟩
  cases outcomes with
  | ok related => exact .ok (implies later _ _ reaches related)
  | error failure => exact .error failure

theorem tracks_weaken {left : Eval α} {right : Eval β} {weaker : rules.World → α → β → Prop}
    (tracked : rules.Tracks world left right post)
    (implies : ∀ later one two, rules.reaches world later → post later one two →
      weaker later one two) :
    rules.Tracks world left right weaker :=
  fun state other states => from_weaken (tracked state other states) implies

end Correspondence

end Machine

end Formula
