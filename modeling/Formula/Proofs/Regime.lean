import Formula.Proofs.Definition
import Formula.Proofs.Stepping

/-!
Invariants of the state. A regime says what holds of the state while the machine runs, which callables
have passed a test of trust, and which calls and programs may come up; two runs under it stay equal.
-/

namespace Formula

open Machine

structure Regime where
  World : Type
  reaches : World → World → Prop
  reaches_refl : ∀ world, reaches world world
  reaches_trans : ∀ {first second third}, reaches first second → reaches second third →
    reaches first third
  states : World → State → Prop
  programs : Program → Prop
  trusted : World → Value → Prop
  calls : World → Value → List Value → Prop
  carries : World → Value → Value → Prop
  frames : Frame → Prop
  trusted_later : ∀ {world later function}, reaches world later → trusted world function →
    trusted later function
  calls_later : ∀ {world later function arguments}, reaches world later →
    calls world function arguments → calls later function arguments
  carries_later : ∀ {world later function total}, reaches world later →
    carries world function total → carries later function total
  parts : ∀ {program instruction part}, programs program → instruction ∈ program →
    instruction = .nested part ∨ instruction = .suspended part → programs part
  /-- The state may hold other data. -/
  data : ∀ {world state heap}, states world state → ∀ seed,
    heap.functions = state.heap.functions → states world { state with heap := heap, seed := seed }
  counted : ∀ {world state}, states world state → states world state.count
  defined : ∀ {world state scope function}, states world state →
    frames ⟨function.dialect, scope⟩ →
    (∀ program, function.body = .suspended program → programs program) →
    states world (state.define scope function)
  body : ∀ {world state place function program}, states world state →
    state.heap.function? place = some function → function.body = .suspended program →
    programs program
  trust : ∀ {world state frame function}, states world state → frames frame →
    (state.dialect frame.dialect).trusts function = true →
    ∃ later, reaches world later ∧ states later state ∧ trusted later function
  calls_trusted : ∀ {world function arguments}, trusted world function →
    (∀ argument ∈ arguments, argument.isCallable = true → trusted world argument) →
    calls world function arguments
  operates : ∀ {world state frame symbol function} {table : Dialect → Table},
    states world state → frames frame →
    table = Dialect.unary ∨ table = Dialect.binary ∨ table = Dialect.ternary →
    (table (state.dialect frame.dialect)).get? symbol = some function →
    ∃ later, reaches world later ∧ states later state ∧
      ∀ last, reaches later last → ∀ arguments, calls last function arguments
  visits : ∀ {world traversal function collection place},
    traversal = .map ∨ traversal = .filter →
    calls world (.builtin traversal) [function, collection] → function.isCallable = true →
    collection.sequence? = some place →
    ∀ item index, calls world function (withIndex function [item] index)
  folds : ∀ {world function first collection place},
    calls world (.builtin .fold) [function, first, collection] → function.isCallable = true →
    collection.sequence? = some place → carries world function first
  carries_calls : ∀ {world function total}, carries world function total →
    ∀ item index, calls world function (withIndex function [total, item] index)
  carries_next : ∀ {world function total next}, carries world function total →
    (function.gathers = true → next.isCallable = false) → carries world function next
  enters : ∀ {world state place arguments function}, calls world (.defined place) arguments →
    states world state → state.heap.function? place = some function →
    ∀ scope, frames ⟨function.dialect, scope⟩

namespace Regime

/-- The regime of an invariant that makes no difference between values. -/
def ofInvariant (states : State → Prop) (programs : Program → Prop)
    (parts : ∀ {program instruction part}, programs program → instruction ∈ program →
      instruction = .nested part ∨ instruction = .suspended part → programs part)
    (data : ∀ {state heap}, states state → ∀ seed, heap.functions = state.heap.functions →
      states { state with heap := heap, seed := seed })
    (counted : ∀ {state}, states state → states state.count)
    (defined : ∀ {state scope function}, states state →
      (∀ program, function.body = .suspended program → programs program) →
      states (state.define scope function))
    (body : ∀ {state place function program}, states state →
      state.heap.function? place = some function → function.body = .suspended program →
      programs program) : Regime where
  World := Unit
  reaches _ _ := True
  reaches_refl _ := trivial
  reaches_trans _ _ := trivial
  states _ := states
  programs := programs
  trusted _ _ := True
  calls _ _ _ := True
  carries _ _ _ := True
  frames _ := True
  trusted_later _ _ := trivial
  calls_later _ _ := trivial
  carries_later _ _ := trivial
  parts := parts
  data := data
  counted := counted
  defined holds _ := defined holds
  body := body
  trust holds _ _ := ⟨(), trivial, holds, trivial⟩
  calls_trusted _ _ := trivial
  operates holds _ _ _ := ⟨(), trivial, holds, fun _ _ _ => trivial⟩
  visits _ _ _ _ _ _ := trivial
  folds _ _ _ := trivial
  carries_calls _ _ _ := trivial
  carries_next _ _ := trivial
  enters _ _ _ _ := trivial

variable (regime : Regime)

def relations : Relations where
  World := regime.World
  reaches := regime.reaches
  states world state other := state = other ∧ regime.states world state
  values _ _ := True
  trusted := regime.trusted
  calls := regime.calls
  carries := regime.carries
  frames _ frame := regime.frames frame
  programs _ _ one two := one = two ∧ regime.programs one
  binds _ _ _ := True

variable {regime} {world : regime.World}

theorem tracks_act {action : Action Value}
    (tame : Action.Tame (fun _ => True) (fun _ => True) (fun _ => True) action) :
    regime.relations.Tracks world (Eval.act action) (Eval.act action) regime.relations.Same := by
  rintro state _ ⟨rfl, holds⟩ outcome after found
  refine ⟨world, outcome, after, regime.reaches_refl world, found, ⟨rfl, ?_⟩, ?_⟩
  · rw [Eval.act_apply] at found
    split at found
    · rename_i value heap came
      cases found
      have kept := tame.keeps state.heap ⟨fun _ _ _ => trivial, fun _ _ _ => trivial⟩ _ came
      exact regime.data holds state.seed kept.2.functions
    · cases found
      exact holds
  · cases outcome with
    | ok value => exact .ok ⟨rfl, trivial⟩
    | error failure => exact .error failure

theorem operands_eq {frame : Frame} {one two : Operand}
    (operands : regime.relations.Operands world frame one two) :
    one = two ∧ ∀ program, one = .suspended program → regime.programs program := by
  cases operands with
  | value known => exact ⟨rfl, nofun⟩
  | suspended related =>
      obtain ⟨rfl, good⟩ := related
      refine ⟨rfl, ?_⟩
      rintro program ⟨⟩
      exact good

theorem tracks_define {frame : Frame} (framed : regime.frames frame) (name : Operand)
    (parameters : List Operand) {left right : Operand}
    (bodies : regime.relations.Operands world frame left right) :
    regime.relations.Tracks world (define frame (define.valueOf name) parameters left)
      (define frame (define.valueOf name) parameters right) regime.relations.Same := by
  obtain ⟨rfl, good⟩ := operands_eq bodies
  rintro state _ ⟨rfl, holds⟩ outcome after found
  refine ⟨world, outcome, after, regime.reaches_refl world, found, ⟨rfl, ?_⟩, ?_⟩
  · by_cases named : ∃ word, define.valueOf name = .text word
    · obtain ⟨word, same⟩ := named
      rw [same, define_apply] at found
      cases found
      exact regime.defined holds framed good
    · rw [define_nameless frame fun word same => named ⟨word, same⟩] at found
      cases found
      exact regime.counted holds
  · cases outcome with
    | ok value => exact .ok ⟨rfl, trivial⟩
    | error failure => exact .error failure

variable (regime)

def correspondence : Correspondence where
  toRelations := regime.relations
  reaches_refl := regime.reaches_refl
  reaches_trans := regime.reaches_trans
  values_later _ _ := trivial
  trusted_later := regime.trusted_later
  carries_later := regime.carries_later
  calls_later := regime.calls_later
  frames_later _ framed := framed
  programs_later _ related := related
  binds_later _ _ := trivial
  alike := by
    rintro _ state _ ⟨rfl, -⟩
    exact ⟨state.heap.functions, rfl⟩
  opened _ _ _ := trivial
  holds _ := ⟨fun _ _ _ => trivial, fun _ _ _ => trivial⟩
  entry _ _ _ := trivial
  trust := by
    rintro world state _ frame function ⟨rfl, holds⟩ framed trusts
    obtain ⟨later, reaches, ready, trusted⟩ := regime.trust holds framed trusts
    exact ⟨later, reaches, ⟨rfl, ready⟩, trusted⟩
  calls_trusted trusted _ _ all := regime.calls_trusted trusted all
  operates := by
    rintro world state _ frame symbol function table ⟨rfl, holds⟩ framed kind found
    obtain ⟨later, reaches, ready, calls⟩ := regime.operates holds framed
      (kind.imp_right And.left) found
    exact ⟨later, reaches, ⟨rfl, ready⟩, fun last further arguments _ => calls last further arguments⟩
  assigns := by
    rintro world state _ frame function ⟨rfl, holds⟩ framed found
    obtain ⟨later, reaches, ready, calls⟩ := regime.operates holds framed (.inr (.inl rfl)) found
    exact ⟨later, reaches, ⟨rfl, ready⟩, fun last _ _ further _ _ => calls last further _⟩
  assignsMember := by
    rintro world state _ frame function ⟨rfl, holds⟩ framed found
    obtain ⟨later, reaches, ready, calls⟩ := regime.operates holds framed (.inr (.inr rfl)) found
    exact ⟨later, reaches, ⟨rfl, ready⟩, fun last _ _ _ further _ _ _ => calls last further _⟩
  visits kind calls callable sequence _ index := regime.visits kind calls callable sequence _ index
  folds calls callable sequence := ⟨trivial, regime.folds calls callable sequence⟩
  carries_calls carries _ _ index := regime.carries_calls carries _ index
  carries_next := regime.carries_next
  applies _ := tracks_act (Builtin.tame_apply (fun _ _ => trivial) _ (fun _ _ => trivial)
    fun _ _ _ => trivial)
  acts tame := tracks_act (tame.widen fun _ => False.elim)
  draws := by
    rintro _ state _ ⟨rfl, holds⟩
    exact ⟨rfl, regime.data holds _ rfl⟩
  enters := by
    rintro world state _ place arguments calls ⟨rfl, holds⟩
    cases found : state.heap.function? place with
    | none => exact .missing
    | some function =>
        refine .found rfl rfl rfl fun entries _ => ⟨world, regime.reaches_refl world, ?_, ?_, ?_⟩
        · exact ⟨rfl, regime.data holds state.seed rfl⟩
        · exact regime.enters calls holds found _
        · cases body : function.body with
          | value value => exact .value trivial
          | suspended program => exact .suspended ⟨rfl, regime.body holds found body⟩
  defines framed _ _ bodies := tracks_define framed _ _ bodies

/-- A way to answer requests that is the machine's own as far as the regime goes. -/
structure Heeds (answers : Nat → Perform) : Prop where
  zero : answers 0 = fun _ => Eval.outOfFuel
  runs : ∀ depth {world state frame program}, regime.states world state → regime.frames frame →
    regime.programs program →
    answers (depth + 1) (.run frame.dialect program frame.scope) state =
      run (answers depth) frame program state
  calls : ∀ depth {world state function arguments}, regime.states world state →
    regime.calls world function arguments →
    answers (depth + 1) (.call function arguments) state =
      call (answers depth) function arguments state

theorem heeds_perform : regime.Heeds perform where
  zero := rfl
  runs _ _ _ _ _ _ _ _ := rfl
  calls _ _ _ _ _ _ _ := rfl

theorem instructions_refl {frame : Frame} {program : Program} (good : regime.programs program) :
    List.Forall₂ (regime.relations.Instructions world frame) program program := by
  refine List.forall₂_same.mpr fun instruction member => ?_
  cases instruction with
  | literal value => exact .literal trivial
  | nested part => exact .nested ⟨rfl, regime.parts good member (.inl rfl)⟩
  | suspended part => exact .suspended ⟨rfl, regime.parts good member (.inr rfl)⟩
  | _ => constructor

theorem follows_heeding {one two : Nat → Perform} (heedsOne : regime.Heeds one)
    (heedsTwo : regime.Heeds two) (depth : Nat) :
    regime.correspondence.Follows (one depth) (two depth) := by
  induction depth with
  | zero =>
      rw [heedsOne.zero]
      exact ⟨fun _ _ _ _ _ _ _ _ _ _ _ found => by (cases found),
        fun _ _ _ _ _ _ _ _ _ found => by (cases found)⟩
  | succ depth ih =>
      constructor
      · rintro world frame program _ framed ⟨rfl, good⟩ state _ ⟨rfl, holds⟩ outcome after found
        rw [heedsOne.runs depth holds framed good] at found
        rw [heedsTwo.runs depth holds framed good]
        have tracked : regime.correspondence.Tracks world (run (one depth) frame program)
            (run (two depth) frame program) regime.relations.Same :=
          Correspondence.tracks_run framed ih (instructions_refl regime good) fun _ => trivial
        exact tracked state state ⟨rfl, holds⟩ outcome after found
      · rintro world function arguments calls state _ ⟨rfl, holds⟩ outcome after found
        rw [heedsOne.calls depth holds calls] at found
        rw [heedsTwo.calls depth holds calls]
        exact Correspondence.tracks_call ih calls state state ⟨rfl, holds⟩ outcome after found

/-- What one way comes to on a program, each other comes to as well, and the regime lasts. -/
theorem run_heeding {one two : Nat → Perform} (heedsOne : regime.Heeds one)
    (heedsTwo : regime.Heeds two) (world : regime.World) (frame : Frame) {depth : Nat}
    {state after : State} {program : Program} {outcome : Except Failure Value} (holds : regime.states world state)
    (framed : regime.frames frame) (good : regime.programs program)
    (found : one depth (.run frame.dialect program frame.scope) state = some (outcome, after)) :
    two depth (.run frame.dialect program frame.scope) state = some (outcome, after) ∧
      ∃ later, regime.reaches world later ∧ regime.states later after := by
  obtain ⟨later, counterpart, reached, reaches, came, ⟨rfl, lasts⟩, outcomes⟩ :=
    (follows_heeding regime heedsOne heedsTwo depth).runs world frame program program framed
      ⟨rfl, good⟩ state state ⟨rfl, holds⟩ outcome after found
  refine ⟨?_, later, reaches, lasts⟩
  cases outcomes with
  | ok related =>
      obtain ⟨⟨rfl, -⟩⟩ := related
      exact came
  | error failure => exact came

/-- Every two ways to answer requests that heed a regime agree. -/
theorem agree {one two : Nat → Perform} (heedsOne : regime.Heeds one)
    (heedsTwo : regime.Heeds two) (world : regime.World) (depth : Nat) {state : State}
    {frame : Frame} {program : Program}
    (holds : regime.states world state) (framed : regime.frames frame)
    (good : regime.programs program) :
    one depth (.run frame.dialect program frame.scope) state =
      two depth (.run frame.dialect program frame.scope) state := by
  apply Option.ext
  rintro ⟨outcome, after⟩
  exact ⟨fun found => (run_heeding regime heedsOne heedsTwo world frame holds framed good found).1,
    fun found => (run_heeding regime heedsTwo heedsOne world frame holds framed good found).1⟩

end Regime

end Formula
