import Formula.Proofs.Discipline
import Formula.Proofs.Regime

/-!
The machine with its stack under check: on disciplined programs it works as the machine does, so that
no instruction ever lacks an operand.
-/

namespace Formula

namespace Eval

variable {α β : Type} {post : α → Prop} {final : β → Prop}

/-- What a computation gives, whenever it gives a result. -/
def Gives (post : α → Prop) (computation : Eval α) : Prop :=
  ∀ state result after, computation state = some (.ok result, after) → post result

theorem gives_pure {result : α} (holds : post result) : Gives post (pure result) := by
  intro state other after found
  cases found
  exact holds

theorem gives_throw (failure : Failure) : Gives post (throw failure) := by
  intro state result after found
  cases found

theorem gives_bind {first : Eval α} {next : α → Eval β} (holds : Gives post first)
    (follows : ∀ result, post result → Gives final (next result)) : Gives final (first >>= next) := by
  intro state result after found
  obtain ⟨value, between, came, reached⟩ := bind_eq_ok found
  exact follows value (holds state value between came) between result after reached

theorem gives_any (computation : Eval α) : Gives (fun _ => True) computation :=
  fun _ _ _ _ => trivial

end Eval

namespace Machine

/-- Whether an operand has a shape; targets are among given names. -/
def hasShape (names : Text → Prop) : Shape → Operand → Prop
  | .value, .value _ => True
  | .target, .value (.text name) => names name
  | .suspended, .suspended _ => True
  | _, _ => False

/-- Stacks of given shapes. -/
abbrev Fits (names : Text → Prop) : List Shape → Stack → Prop := List.Forall₂ (hasShape names)

/-- What an instruction leaves on top. -/
def Leaves (names : Text → Prop) (instruction : Instruction) (stack after : Stack) : Prop :=
  ∃ top, after = top ++ stack.drop instruction.taken ∧ Fits names instruction.yields top

section

variable {names : Text → Prop} {stack : Stack}

theorem gives_pop : Eval.Gives (fun popped => stack = popped.1 :: popped.2) (pop stack) := by
  cases stack with
  | nil => exact Eval.gives_throw _
  | cons top rest => exact Eval.gives_pure rfl

theorem gives_popMany (count : Nat) (taken : List Operand) :
    Eval.Gives (fun popped => popped.2 = stack.drop count) (popMany count stack taken) := by
  induction count generalizing stack taken with
  | zero => exact Eval.gives_pure rfl
  | succ count ih =>
      refine Eval.gives_bind gives_pop ?_
      rintro ⟨top, rest⟩ rfl
      exact ih (top :: taken)

theorem gives_popResolved (perform : Perform) (frame : Frame) (count : Nat) (taken : List Value) :
    Eval.Gives (fun popped => popped.2 = stack.drop count)
      (popResolved perform frame count stack taken) := by
  induction count generalizing stack taken with
  | zero => exact Eval.gives_pure rfl
  | succ count ih =>
      refine Eval.gives_bind gives_pop ?_
      rintro ⟨top, rest⟩ rfl
      exact Eval.gives_bind (Eval.gives_any _) fun value _ => ih (value :: taken)

theorem gives_pushed {instruction : Instruction} (yields : instruction.yields = [.value])
    (computation : Eval Value) {lower : Stack} (below : lower = stack.drop instruction.taken) :
    Eval.Gives (Leaves names instruction stack) (do return .value (← computation) :: lower) := by
  refine Eval.gives_bind (Eval.gives_any _) fun value _ => Eval.gives_pure ?_
  refine ⟨[.value value], by rw [below]; rfl, ?_⟩
  rw [yields]
  exact .cons trivial .nil

/-- However requests are answered, an instruction leaves what it promises on what it does not take. -/
theorem gives_step (perform : Perform) (frame : Frame) {instruction : Instruction}
    (named : ∀ name, instruction = .target name → names name) :
    Eval.Gives (Leaves names instruction stack) (step perform frame instruction stack) := by
  cases instruction with
  | literal value => exact Eval.gives_pure ⟨[.value value], rfl, .cons trivial .nil⟩
  | target name => exact Eval.gives_pure ⟨[.value (.text name)], rfl, .cons (named name rfl) .nil⟩
  | name name => exact gives_pushed rfl _ rfl
  | nested program => exact Eval.gives_pure ⟨[.suspended program], rfl, .cons trivial .nil⟩
  | suspended program => exact Eval.gives_pure ⟨[.suspended program], rfl, .cons trivial .nil⟩
  | unary symbol =>
      refine Eval.gives_bind gives_pop ?_
      rintro ⟨operand, rest⟩ rfl
      refine Eval.gives_bind (Eval.gives_any _) fun function _ => ?_
      exact Eval.gives_bind (Eval.gives_any _) fun value _ => gives_pushed rfl _ rfl
  | binary symbol =>
      refine Eval.gives_bind gives_pop ?_
      rintro ⟨right, rest⟩ rfl
      refine Eval.gives_bind gives_pop ?_
      rintro ⟨left, lower⟩ rfl
      exact gives_pushed rfl _ rfl
  | ternary symbol =>
      refine Eval.gives_bind gives_pop ?_
      rintro ⟨third, rest⟩ rfl
      refine Eval.gives_bind gives_pop ?_
      rintro ⟨second, lower⟩ rfl
      refine Eval.gives_bind gives_pop ?_
      rintro ⟨first, base⟩ rfl
      exact gives_pushed rfl _ rfl
  | call count =>
      refine Eval.gives_bind (gives_popResolved perform frame count.toNat []) ?_
      rintro ⟨arguments, rest⟩ dropped
      refine Eval.gives_bind gives_pop ?_
      rintro ⟨callee, lower⟩ split
      refine Eval.gives_bind (Eval.gives_any _) fun function _ => gives_pushed rfl _ ?_
      simp only at dropped split
      rw [Instruction.taken, ← List.drop_drop, ← dropped, split]
      rfl
  | define count =>
      refine Eval.gives_bind gives_pop ?_
      rintro ⟨body, rest⟩ rfl
      refine Eval.gives_bind (gives_popMany count.toNat []) ?_
      rintro ⟨parameters, lower⟩ dropped
      refine Eval.gives_bind gives_pop ?_
      rintro ⟨name, base⟩ split
      refine gives_pushed rfl _ ?_
      simp only at dropped split
      rw [Instruction.taken, List.drop_succ_cons, ← List.drop_drop, ← dropped, split]
      rfl
  | member name =>
      refine Eval.gives_bind gives_pop ?_
      rintro ⟨target, rest⟩ rfl
      exact Eval.gives_bind (Eval.gives_any _) fun value _ => gives_pushed rfl _ rfl
  | discard =>
      refine Eval.gives_bind gives_pop ?_
      rintro ⟨top, rest⟩ rfl
      exact Eval.gives_pure ⟨[], rfl, .nil⟩
  | array count =>
      refine Eval.gives_bind (gives_popResolved perform frame count.toNat []) ?_
      rintro ⟨items, rest⟩ dropped
      exact gives_pushed rfl _ dropped

end

/-- Whether an operand is what is demanded. -/
def meets : Demand → Operand → Bool
  | .operand, _ => true
  | .target, .value (.text _) => true
  | .suspended, .suspended _ => true
  | _, _ => false

/-- Whether a stack has the operands that are demanded. -/
def provides : List Demand → Stack → Bool
  | [], _ => true
  | demand :: demands, operand :: stack => meets demand operand && provides demands stack
  | _ :: _, [] => false

/-- Runs a program with an alarm where an instruction lacks an operand, or has one that is not what it
demands, and where a program does not come to just one operand. -/
def checkedSteps (alarm : Eval Value) (perform : Perform) (frame : Frame) :
    Program → Stack → Eval Value
  | [], [operand] => return unsigned (← resolve perform frame operand)
  | [], _ => alarm
  | instruction :: rest, stack =>
    if provides instruction.demands stack then do
      checkedSteps alarm perform frame rest (← step perform frame instruction stack)
    else alarm

/-- The machine with its stacks under check, in every program that it runs on the way. -/
def checked (alarm : Eval Value) : Nat → Perform
  | 0 => fun _ => Eval.outOfFuel
  | depth + 1 => fun request =>
    match request with
    | .run dialect program scope =>
      checkedSteps alarm (checked alarm depth) ⟨dialect, scope⟩ program []
    | .call function arguments => call (checked alarm depth) function arguments

variable {names : Text → Prop}

theorem meets_of_accepts {demand : Demand} {shape : Shape} {operand : Operand}
    (fits : hasShape names shape operand) (accepted : demand.accepts shape = true) :
    meets demand operand = true := by
  cases demand with
  | operand => rfl
  | target =>
      cases of_decide_eq_true accepted
      cases operand with
      | suspended program => cases fits
      | value value => cases value <;> first | rfl | cases fits
  | suspended =>
      cases of_decide_eq_true accepted
      cases operand with
      | suspended program => rfl
      | value value => cases fits

theorem fits_take {demands : List Demand} {shapes lower : List Shape} {stack : Stack}
    (fits : Fits names shapes stack) (taken : take demands shapes = some lower) :
    provides demands stack = true ∧ Fits names lower (stack.drop demands.length) := by
  induction demands generalizing shapes stack with
  | nil =>
      cases taken
      exact ⟨rfl, fits⟩
  | cons demand demands ih =>
      cases fits with
      | nil => cases taken
      | cons first rest =>
          simp only [take] at taken
          split at taken
          · rename_i accepted
            obtain ⟨provided, below⟩ := ih rest taken
            exact ⟨by rw [provides, meets_of_accepts first accepted, provided]; rfl, below⟩
          · cases taken

theorem fits_leaves {instruction : Instruction} {shapes lower : List Shape} {stack after : Stack}
    (fits : Fits names shapes stack) (taken : take instruction.demands shapes = some lower)
    (leaves : Leaves names instruction stack after) : Fits names (instruction.yields ++ lower) after := by
  obtain ⟨top, rfl, yielded⟩ := leaves
  have below := (fits_take fits taken).2
  rw [instruction.length_demands] at below
  exact List.rel_append yielded below

/-- The value of a program that has come to an end. -/
def ending (perform : Perform) (frame : Frame) : Stack → Eval Value
  | [] => return .null
  | [operand] => return unsigned (← resolve perform frame operand)
  | _ => throw (.evaluation .leftoverOperands)

theorem checkedSteps_eq {program : Program} {shapes : List Shape} {shape : Shape} {stack : Stack}
    (fits : Fits (fun _ => True) shapes stack) (scanned : scan program shapes = some [shape])
    (alarm : Eval Value)
    (perform : Perform) (frame : Frame) :
    checkedSteps alarm perform frame program stack =
      steps perform frame program stack >>= ending perform frame := by
  induction program generalizing shapes stack with
  | nil =>
      cases scanned
      cases fits with
      | cons first rest =>
          cases rest with
          | nil => exact (pure_bind _ _).symm
  | cons instruction rest ih =>
      simp only [scan] at scanned
      cases taken : take instruction.demands shapes with
      | none => simp [taken] at scanned
      | some lower =>
          rw [taken] at scanned
          simp only [checkedSteps, steps, (fits_take fits taken).1, if_pos, bind_assoc]
          funext state
          rw [Eval.bind_apply, Eval.bind_apply]
          cases came : step perform frame instruction stack state with
          | none => rfl
          | some reached =>
              obtain ⟨outcome, between⟩ := reached
              cases outcome with
              | error failure => rfl
              | ok after =>
                  have leaves := gives_step perform frame (fun _ _ => trivial) state after between came
                  exact congrFun (ih (fits_leaves fits taken leaves) scanned) between

/-- On a disciplined program the check never sounds the alarm. -/
theorem checkedSteps_disciplined {program : Program} (disciplined : program.disciplined = true)
    (alarm : Eval Value) (perform : Perform) (frame : Frame) :
    checkedSteps alarm perform frame program [] = run perform frame program := by
  obtain ⟨⟨shape, scanned, -⟩, -⟩ := disciplined_iff.mp disciplined
  exact checkedSteps_eq .nil scanned alarm perform frame

end Machine

open Machine

/-- All functions of the heap have disciplined bodies. -/
def State.Orderly (state : State) : Prop :=
  ∀ place function program, state.heap.function? place = some function →
    function.body = .suspended program → program.disciplined = true

/-- While only disciplined programs run, the functions of the heap stay disciplined. -/
def orderlyRegime : Regime :=
  .ofInvariant State.Orderly (fun program => program.disciplined = true)
    disciplined_part
    (fun orderly _ functions place function program found => by
      rw [Heap.function?, functions] at found
      exact orderly place function program found)
    (fun orderly => orderly)
    (fun orderly good place known program found body => by
      rcases State.function?_of_define found with rfl | old
      · exact good program body
      · exact orderly place known program old body)
    (fun orderly found body => orderly _ _ _ found body)

theorem heeds_checked (alarm : Eval Value) : orderlyRegime.Heeds (checked alarm) where
  zero := rfl
  runs depth _ state frame _ _ _ disciplined :=
    congrFun (checkedSteps_disciplined disciplined alarm (checked alarm depth) frame) state
  calls _ _ _ _ _ _ _ := rfl

end Formula
