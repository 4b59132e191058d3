import Mathlib.Tactic.FinCases
import Formula.Proofs.Caching
import Formula.Proofs.Interpretation
import Formula.Proofs.Preservation
import Formula.Proofs.Realization
import Formula.Proofs.Residue
import Formula.Proofs.Scanning

/-!
Compiled code refines the machine: on a well-typed expression of integers and truth values that fit in
32 bits, the graph that it is lowered to computes what the machine comes to.
-/

namespace Formula

open Machine

/-- What the names of arguments stand for. Of two arguments of one name the later one counts. -/
def given (arguments : List (Text × Datum)) (name : Text) : Option Datum :=
  arguments.reverse.lookup name

variable {arguments : List (Text × Datum)} {name : Text} {datum : Datum}

theorem mem_of_given (known : given arguments name = some datum) : (name, datum) ∈ arguments :=
  List.mem_reverse.mp (mem_of_lookup known)

theorem lookup_map {α β : Type} (change : α → β) (table : List (Text × α)) (name : Text) :
    (table.map fun entry => (entry.1, change entry.2)).lookup name =
      (table.lookup name).map change := by
  induction table with
  | nil => rfl
  | cons entry table ih =>
      rw [List.map_cons, List.lookup_cons, List.lookup_cons, ih]
      cases name == entry.1 <;> rfl

/-- The arguments of a graph, by their names. -/
theorem named_arguments (arguments : List (Text × Datum)) :
    (List.zip (arguments.map (·.1)) (arguments.map fun entry => Argument.scalar entry.2.scalar)).reverse =
      arguments.reverse.map fun entry => (entry.1, Argument.scalar entry.2.scalar) := by
  rw [List.zip_map', List.map_reverse]

theorem Pushes.evaluates {dialect scope : Nat} {state : State} {program : Program} {value : Value}
    (pushes : Pushes ⟨dialect, scope⟩ state program [value]) (plain : unsigned value = value) :
    Evaluates dialect program scope state (.ok value) state := by
  obtain ⟨least, reads⟩ := pushes.resolves plain
  exact ⟨least, (reads least (Nat.le_refl least)).resolve_right fun spent => spent.1⟩

namespace Term

/-- An expression that assigns nothing can be written down. -/
theorem renders {term : Term} (ordinary : term.ordinary = true) (heap : Heap) :
    ∃ text, term.code.render heap = .ok text := by
  have coded := term.code_coded ordinary
  obtain ⟨parts, rendered⟩ : ∃ parts, Rendering.instructions heap term.code [] = .ok parts :=
    Rendering.renders term.code coded.sound (coded.scanned []) (Nat.le_refl 0)
  exact ⟨_, by rw [Program.render, rendered]; rfl⟩

/-- Lowering without the cache lowers what simplification comes to. -/
theorem lower_of_simplified {session : Session} {dialect depth : Nat} {program : Program} {term : Term}
    (ordinary : term.ordinary = true)
    (simplified : program.simplify (perform depth) dialect [] session.state = some (.ok term.code, session.state))
    (names : List Text) :
    Expression.lower depth ⟨program, dialect⟩ names [] false session =
      match term.code.lower session.state.heap (session.state.dialect dialect).functions names with
      | .ok graph => some (.ok graph, session)
      | .error failure => some (.error failure, session) := by
  obtain ⟨text, rendered⟩ := renders ordinary session.state.heap
  have simplifiedWork : Expression.simplify depth ⟨program, dialect⟩ [] session =
      some (.ok ⟨term.code, dialect⟩, session) := by
    simp only [Expression.simplify, Work.bind_apply, Work.ofEval_apply, simplified]
    rfl
  rw [Expression.lower, List.filter_nil, Work.bind_apply, simplifiedWork]
  simp only [Work.bind_apply, Expression.render_apply, rendered]
  change (liftM (Expression.lowerSimplified session ⟨term.code, dialect⟩ names) : Work Graph) session = _
  rw [Expression.lowerSimplified]
  cases term.code.lower session.state.heap (session.state.dialect dialect).functions names <;> rfl

end Term

namespace Denotes

variable {environment : Text → Option Datum} {within : Datum → Prop} {term : Term}

/-- What an expression denotes is within the bounds. -/
theorem inside (denotes : Denotes environment within term datum) : within datum := by
  cases denotes <;> assumption

theorem other_binary {symbol : Text} {one two result : Datum}
    (known : one.binary? symbol two = some result) : symbol ≠ Term.assignSymbol := by
  rintro rfl
  cases one <;> cases two <;> cases known

/-- An expression assigns nothing. -/
theorem ordinary (denotes : Denotes environment within term datum) : term.ordinary = true := by
  induction denotes with
  | literal _ | argument _ _ => rfl
  | unary _ _ _ ih => exact ih
  | binary _ _ known _ ihLeft ihRight => simp [Term.ordinary, other_binary known, ihLeft, ihRight]
  | connective listed _ _ _ ihLeft ihRight =>
      have other := (by decide : ∀ entry ∈ Datum.connectives.map (·.1), entry ≠ Term.assignSymbol) _
        (List.mem_map_of_mem listed)
      simp [Term.ordinary, other, ihLeft, ihRight]
  | conditional _ _ _ _ _ ih ihYes ihNo => simp [Term.ordinary, ih, ihYes, ihNo]
  | extremum _ count _ _ ih =>
      have each : List.Forall₂ (fun (argument : Term) (_ : Int) => argument.ordinary = true ∧ True) _ _ :=
        List.forall₂_iff_zip.mpr ⟨count, fun pair => ⟨ih _ _ pair, trivial⟩⟩
      exact Bool.and_eq_true_iff.mpr
        ⟨rfl, Term.allOrdinary_iff.mpr ((List.forall₂_and_left _ _).mp each).1⟩

/-- The machine comes to what an expression denotes. -/
theorem evaluates {dialect scope : Nat} {state : State}
    (ready : Ready environment ⟨dialect, scope⟩ state)
    (denotes : Denotes environment within term datum) :
    Evaluates dialect term.code scope state (.ok datum.value) state :=
  (denotes.pushes ready).evaluates (by cases datum <;> rfl)

/-- Lowering an expression without the cache lowers a simplified one. -/
theorem lower_simplified {session : Session} {dialect : Nat}
    (operates : (session.state.dialect dialect).Operates)
    (denotes : Denotes environment within term datum) (names : List Text) (depth : Nat) :
    ∃ other : Term, Denotes environment within other datum ∧
      Expression.lower (depth + 1) ⟨term.code, dialect⟩ names [] false session =
        match other.code.lower session.state.heap (session.state.dialect dialect).functions names with
        | .ok graph => some (.ok graph, session)
        | .error failure => some (.error failure, session) := by
  obtain ⟨other, denotesOther, simplified⟩ := denotes.simplifies operates depth
  exact ⟨other, denotesOther, Term.lower_of_simplified denotesOther.ordinary simplified names⟩

/-- An expression is lowered to a graph that computes what it denotes. -/
theorem lowers (heap : Heap) {functions : Table} {arguments : List (Text × Datum)}
    (extrema : ∀ name ∈ Datum.extrema.map (·.1),
      name ∉ arguments.map (·.1) ∧ functions.holds name = true)
    (denotes : Denotes (given arguments) Datum.Fits term datum) :
    ∃ graph, term.code.lower heap functions (arguments.map (·.1)) = .ok graph ∧
      graph.run (arguments.map fun entry => .scalar entry.2.scalar) =
        .ok (.scalar datum.element) := by
  have passed (name : Text) (datum : Datum) (known : given arguments name = some datum)
      (fits : datum.Fits) : name ∈ arguments.map (·.1) ∧ ∃ argument,
        (arguments.reverse.map fun entry => (entry.1, Argument.scalar entry.2.scalar)).lookup name =
          some argument ∧ argument.toTensor = .ok (.scalar datum.element) := by
    refine ⟨List.mem_map_of_mem (mem_of_given known), .scalar datum.scalar, ?_,
      Datum.ofConstant_scalar fits⟩
    rw [lookup_map fun datum : Datum => Argument.scalar datum.scalar]
    exact congrArg (Option.map _) known
  have realizes : Lowering.Realizes _ heap _ functions term.code [datum] :=
    (Lowering.realizes_denotes passed extrema denotes).2
  obtain ⟨stack, nodes, values, came, worked, -, positions, rfl, standings⟩ :=
    realizes #[] #[] (.empty _) []
  obtain ⟨position, rfl⟩ := List.length_eq_one_iff.mp standings.length_eq
  obtain ⟨reading, held, tensor⟩ := (List.forall₂_cons.mp standings).1
  refine ⟨⟨nodes, position, arguments.map (·.1)⟩, ?_, ?_⟩
  · change ((Lowering.lowerProgram heap _ functions [] term.code) #[] >>= _) = _
    rw [Lowering.lowerProgram_eq]
    change ((Lowering.lowerOver heap _ functions [] term.code #[] >>= fun outcome =>
      Lowering.finish outcome.1 outcome.2) >>= _) = _
    rw [came]
    rfl
  · rw [Graph.run, Graph.runWith, if_pos (by simp), named_arguments]
    dsimp only
    rw [Array.length_toList, worked.ran nodes.size (Nat.le_refl _)]
    dsimp only [bind, Except.bind]
    rw [held]
    exact congrArg Except.ok tensor

end Denotes

end Formula
