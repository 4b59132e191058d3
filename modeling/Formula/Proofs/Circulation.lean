import Formula.Proofs.Checked
import Formula.Proofs.Parsing
import Formula.Proofs.Rewriting
import Formula.Proofs.Scanning
import Formula.Proofs.Translation

/-!
Programs in circulation: those that parsing, simplification and substitution give. Each keeps the
discipline of the stack, wherever it goes.
-/

namespace Formula

inductive Circulating : Program → Prop
  | parsed {dialect : Dialect} {source : Text} {term : Term}
      (found : parse dialect source = .ok term) : Circulating term.code
  | simplified {program result : Program} {perform : Machine.Perform} {dialect : Nat}
      {values : Entries} {state after : State} (earlier : Circulating program)
      (found : program.simplify perform dialect values state = some (.ok result, after)) :
      Circulating result
  | filled {program : Program} (earlier : Circulating program) (word : Text) (value : Value) :
      Circulating (program.substitute word [.literal value])
  | substituted {program replacement : Program} (earlier : Circulating program) (word : Text)
      (other : Circulating replacement) : Circulating (program.substitute word replacement)

theorem Circulating.disciplined {program : Program} (circulating : Circulating program) :
    program.disciplined = true := by
  induction circulating with
  | parsed found => exact parse_disciplined found
  | simplified earlier found ih => exact simplify_disciplined ih found
  | filled earlier word value ih => exact substitute_disciplined word ih rfl
  | substituted earlier word other ih ihOther => exact substitute_disciplined word ih ihOther

/-- The states in which programs in circulation are evaluated: at first no expression has defined a
function, and then they run one after another, in any dialects and scopes, while the host changes what
it likes but the functions. -/
inductive Reached : State → Prop
  | opened {state : State} (none : state.heap.functions = #[]) : Reached state
  | evaluated {state after : State} {outcome : Except Failure Value} {program : Program}
      (earlier : Reached state) (circulating : Circulating program) (depth dialect scope : Nat)
      (came : Machine.perform depth (.run dialect program scope) state = some (outcome, after)) :
      Reached after
  | changed {state after : State} (earlier : Reached state)
      (functions : after.heap.functions = state.heap.functions) : Reached after

open Machine

theorem Reached.orderly {state : State} (reached : Reached state) : state.Orderly := by
  induction reached with
  | opened none =>
      intro place function program found
      rw [Heap.function?, none] at found
      cases found
  | evaluated earlier circulating depth dialect scope came ih =>
      have heeds := orderlyRegime.heeds_perform
      obtain ⟨-, _, -, kept⟩ := orderlyRegime.run_heeding heeds heeds () ⟨dialect, scope⟩ ih trivial
        circulating.disciplined came
      exact kept
  | changed earlier functions ih =>
      intro place function program found
      rw [Heap.function?, functions] at found
      exact ih place function program found

/-- The discipline of the stack. A program in circulation takes only operands that are there and are
what it demands, and so does every program in it. Hence no check of the stack ever fails while it runs,
the renderer has a text for it, and lowering refuses it only for what arrays do not know. -/
theorem stack_discipline {program : Program} (circulating : Circulating program) :
    program.disciplined = true ∧
      (∀ state, Reached state → ∀ alarm depth dialect scope,
        checked alarm depth (.run dialect program scope) state =
          perform depth (.run dialect program scope) state) ∧
      (∀ heap, ∃ text, program.render heap = .ok text) ∧
      ∀ heap functions arguments failure,
        program.lower heap functions arguments = .error failure →
          ∃ cause, failure = .unsupported cause ∧ cause ≠ .valueCount := by
  have disciplined := circulating.disciplined
  obtain ⟨⟨shape, scanned, -⟩, -⟩ := disciplined_iff.mp disciplined
  have sound : soundAll program = true := (Bool.and_eq_true_iff.mp disciplined).2
  refine ⟨disciplined, ?_, ?_, ?_⟩
  · intro state reached alarm depth dialect scope
    have framed : orderlyRegime.frames ⟨dialect, scope⟩ := trivial
    exact orderlyRegime.agree (heeds_checked alarm) orderlyRegime.heeds_perform () depth
      reached.orderly framed disciplined
  · intro heap
    obtain ⟨after, rendered⟩ := Rendering.renders program sound scanned (Nat.zero_le _)
    exact ⟨_, by rw [Program.render, rendered]; rfl⟩
  · intro heap functions arguments failure refused
    have lowered : Lowering.Refuses (fun _ => True)
        (Lowering.lowerProgram heap arguments functions [] program) :=
      Lowering.refuses_program program sound scanned rfl
    have refuses := lowered #[]
    cases came : Lowering.lowerProgram heap arguments functions [] program #[] with
    | error other =>
        rw [came] at refuses
        rw [Program.lower, StateT.run, came] at refused
        cases refused
        exact refuses
    | ok outcome =>
        rw [Program.lower, StateT.run, came] at refused
        cases refused

theorem stack_discipline_of_text :
    ∃ term, parse (.standard {}) (Text.ofString "f(x) = x + y; f(2) ? (1; 2) : a") = .ok term ∧
      Circulating (Program.substitute term.code (Text.ofString "y") [.literal (.int 1)]) ∧
      Reached ({} : State) ∧
      ∀ alarm, checked alarm 9
          (.run 0 (Program.substitute term.code (Text.ofString "y") [.literal (.int 1)]) 0) {} =
        perform 9
          (.run 0 (Program.substitute term.code (Text.ofString "y") [.literal (.int 1)]) 0) {} := by
  obtain ⟨term, found⟩ := parse_isOk (by decide +kernel : (reading (.standard {})
    (Text.ofString "f(x) = x + y; f(2) ? (1; 2) : a")).isOk = true)
  have circulating : Circulating (Program.substitute term.code (Text.ofString "y") [.literal (.int 1)]) :=
    .filled (.parsed found) _ _
  exact ⟨term, found, circulating, .opened rfl,
    fun alarm => (stack_discipline circulating).2.1 {} (.opened rfl) alarm 9 0 0⟩

end Formula
