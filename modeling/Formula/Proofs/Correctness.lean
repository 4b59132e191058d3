import Formula.Proofs.Caching
import Formula.Proofs.Compilation
import Formula.Proofs.Provenance

/-!
Compilation is correct: a text that is parsed and run as a program comes to what recursion on its term
comes to, from every state that is reached.
-/

namespace Formula

theorem Recursion.World.compiled_eq {state : State} {closures : Array Recursion.Closure}
    (same : closures.map Recursion.Closure.compiled = state.heap.functions) :
    World.compiled ⟨state, closures⟩ = state := by
  rw [World.compiled, same]
  rfl

/-- A world stands for every state that is reached. -/
theorem Reached.world {state : State} (reached : Reached state) :
    ∃ world : Recursion.World, world.compiled = state := by
  induction reached with
  | @opened state none => exact ⟨⟨state, #[]⟩, Recursion.World.compiled_eq (Array.map_empty.trans none.symm)⟩
  | evaluated earlier circulating depth dialect scope came ih =>
      obtain ⟨world, rfl⟩ := ih
      obtain ⟨term, rfl⟩ := circulating.code
      have tracked := Recursion.follows_perform depth (.run dialect (.whole term) scope) world
      rw [Recursion.Task.compiled, Recursion.Deferred.code, came] at tracked
      obtain ⟨last, -, same⟩ := Option.map_eq_some_iff.mp tracked.symm
      exact ⟨last.2, congrArg (·.2) same⟩
  | @changed state after earlier functions ih =>
      obtain ⟨world, rfl⟩ := ih
      exact ⟨⟨after, world.closures⟩, Recursion.World.compiled_eq functions.symm⟩

theorem Expression.parse_apply (dialect : Nat) (source : Text) (session : Session) :
    Expression.parse dialect source session =
      match Formula.parse (session.state.dialect dialect) source with
      | .error failure => some (.error (.parse failure), session)
      | .ok term => some (.ok ⟨term.code, dialect⟩, session) := by
  have got : (get : Work Session) session = some (.ok session, session) := rfl
  rw [Expression.parse, Work.bind_apply, got]
  dsimp only
  cases Formula.parse (session.state.dialect dialect) source <;> rfl

end Formula
