import Formula.Proofs.Regime

/-!
What a run comes to does not depend on how deep its requests may be nested: a depth that suffices can
only be exceeded. So a program comes to one outcome in a state, if it comes to one at all.
-/

namespace Formula

open Machine

/-- The regime under which anything may come up. -/
def laxRegime : Regime :=
  .ofInvariant (fun _ => True) (fun _ => True) (fun _ _ _ => trivial) (fun _ _ _ => trivial)
    (fun _ => trivial) (fun _ _ => trivial) (fun _ _ _ => trivial)

namespace Machine

variable {depth : Nat} {task : Request} {state after : State} {outcome : Except Failure Value}

/-- One level of requests more keeps in step. -/
theorem follows_succ (depth : Nat) :
    laxRegime.correspondence.Follows (perform depth) (perform (depth + 1)) := by
  induction depth with
  | zero =>
      exact ⟨fun _ _ _ _ _ _ _ _ _ _ _ found => by (cases found),
        fun _ _ _ _ _ _ _ _ _ found => by (cases found)⟩
  | succ depth ih =>
      constructor
      · rintro world frame program _ framed ⟨rfl, good⟩
        exact Correspondence.tracks_run framed ih (laxRegime.instructions_refl good) fun _ => trivial
      · intro world function arguments calls
        exact Correspondence.tracks_call ih calls

theorem perform_succ (found : perform depth task state = some (outcome, after)) :
    perform (depth + 1) task state = some (outcome, after) := by
  cases task with
  | run dialect program scope =>
      obtain ⟨_, counterpart, reached, -, came, ⟨rfl, -⟩, outcomes⟩ :=
        (follows_succ depth).runs () ⟨dialect, scope⟩ program program trivial ⟨rfl, trivial⟩ state state
          ⟨rfl, trivial⟩ outcome after found
      cases outcomes with
      | ok related => exact related.1 ▸ came
      | error failure => exact came
  | call function arguments =>
      obtain ⟨_, counterpart, reached, -, came, ⟨rfl, -⟩, outcomes⟩ :=
        (follows_succ depth).calls () function arguments trivial state state ⟨rfl, trivial⟩ outcome
          after found
      cases outcomes with
      | ok related => exact related.1.1 ▸ came
      | error failure => exact came

theorem perform_le {deeper : Nat} (deep : depth ≤ deeper)
    (found : perform depth task state = some (outcome, after)) :
    perform deeper task state = some (outcome, after) := by
  induction deep with
  | refl => exact found
  | step _ ih => exact perform_succ ih

/-- Runs of one request in one state that both end come to the same. -/
theorem perform_determined {other : Nat} {result : Except Failure Value} {last : State}
    (found : perform depth task state = some (outcome, after))
    (again : perform other task state = some (result, last)) : result = outcome ∧ last = after := by
  have one := perform_le (Nat.le_max_left depth other) found
  have two := perform_le (Nat.le_max_right depth other) again
  rw [one] at two
  cases two
  exact ⟨rfl, rfl⟩

end Machine

end Formula
