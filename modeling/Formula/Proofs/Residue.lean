import Formula.Proofs.Interpretation
import Formula.Proofs.Provenance

/-!
Simplification of expressions of integers and truth values, with no values known for names: it works out
the parts that no name occurs in, never fails, and leaves an expression that denotes the same.
-/

namespace Formula

open Machine

namespace Simplification

section

variable {answers : Perform} {dialect : Nat} {values : Entries} {state : State}
  {pending middle later : List Value} {first second done others : Program}

theorem reads_over_append
    (left : Eval.Reads False state (simplifyOver answers dialect values pending first) (done, middle))
    (right : Eval.Reads False state (simplifyOver answers dialect values middle second) (others, later)) :
    Eval.Reads False state (simplifyOver answers dialect values pending (first ++ second))
      (done ++ others, later) := by
  rw [simplifyOver_append]
  exact Eval.reads_bind left (Eval.reads_bind right (Eval.reads_pure _))

theorem reads_over_step {instruction : Instruction}
    (step : Eval.Reads False state (simplifyStep answers dialect values pending instruction) (done, later)) :
    Eval.Reads False state (simplifyOver answers dialect values pending [instruction]) (done, later) := by
  have last : Eval.Reads False state (simplifyOver answers dialect values later []) ([], later) :=
    Eval.reads_pure _
  rw [← List.append_nil done]
  exact Eval.reads_bind step (Eval.reads_bind last (Eval.reads_pure _))

theorem reads_from
    (reads : Eval.Reads False state (simplifyOver answers dialect values [] first) (done, later)) :
    Eval.Reads False state (simplifyFrom answers dialect values [] first) (done ++ flushed later) := by
  rw [simplifyFrom_eq]
  exact Eval.reads_bind reads (Eval.reads_pure _)

/-- A program inside another is simplified by itself, after the pending literals. -/
theorem reads_over_nested {inner : Program}
    (simplified : Eval.Reads False state (simplifyFrom answers dialect values [] first) inner) :
    Eval.Reads False state (simplifyOver answers dialect values pending [.nested first])
      (flushed pending ++ [.nested inner], []) :=
  reads_over_step (Eval.reads_bind simplified (Eval.reads_pure _))

/-- An operator works out what the function behind it gives. -/
theorem reads_applyOperator {table : Dialect → Table} {symbol : Text} {function : Builtin}
    {operands : List Value} {value : Value} (works : Works False answers)
    (held : (table (state.dialect dialect)).get? symbol = some (.builtin function))
    (direct : (Value.builtin function).isDirect = true)
    (applies : ∀ heap, function.apply operands heap = .ok (value, heap)) :
    Eval.Reads False state (applyOperator answers dialect table symbol operands) value :=
  Eval.reads_get (by rw [held]; exact reads_call works direct applies)

end

variable {environment : Text → Option Datum} {within : Datum → Prop}

/-- What simplification leaves of an expression: its datum as one more literal that is pending, or the
program of an expression that denotes the same. -/
inductive Residue (environment : Text → Option Datum) (within : Datum → Prop) (pending : List Value)
    (datum : Datum) : Program → List Value → Prop
  | literal (inside : within datum) : Residue environment within pending datum [] (datum.value :: pending)
  | term {other : Term} (denotes : Denotes environment within other datum) :
      Residue environment within pending datum (flushed pending ++ other.code) []

theorem Residue.code {pending later : List Value} {datum : Datum} {done : Program}
    (residue : Residue environment within pending datum done later) :
    ∃ other : Term, Denotes environment within other datum ∧
      done ++ flushed later = flushed pending ++ other.code := by
  cases residue with
  | literal inside => exact ⟨.literal datum.value, .literal inside, flushed_cons datum.value⟩
  | @term other denotes => exact ⟨other, denotes, List.append_nil _⟩

theorem Residue.of_code {pending : List Value} {datum : Datum} {done : Program} {other : Term}
    (denotes : Denotes environment within other datum) (same : done = flushed pending ++ other.code) :
    Residue environment within pending datum done [] :=
  same ▸ .term denotes

/-- Simplification of a program leaves what an expression leaves. -/
def Remains (environment : Text → Option Datum) (within : Datum → Prop) (depth dialect : Nat)
    (state : State) (program : Program) (datum : Datum) : Prop :=
  ∀ pending, ∃ done later, Residue environment within pending datum done later ∧
    Eval.Reads False state (simplifyOver (perform (depth + 1)) dialect [] pending program) (done, later)

variable {depth dialect : Nat} {state : State}

/-- A program inside another becomes one that denotes the same. -/
theorem Remains.nested {program : Program} {datum : Datum}
    (remains : Remains environment within depth dialect state program datum) :
    ∃ other : Term, Denotes environment within other datum ∧ Eval.Reads False state
      (simplifyFrom (perform (depth + 1)) dialect [] [] program) other.code := by
  obtain ⟨done, later, residue, reads⟩ := remains []
  obtain ⟨other, denotes, same⟩ := residue.code
  have simplified := reads_from reads
  rw [same] at simplified
  exact ⟨other, denotes, simplified⟩

theorem remains_name {name : Text} {datum : Datum} (known : environment name = some datum)
    (inside : within datum) : Remains environment within depth dialect state [.name name] datum := by
  intro pending
  exact ⟨_, _, .term (.argument known inside),
    reads_over_step (Eval.reads_get (Eval.reads_pure (flushed pending ++ [.name name], [])))⟩

theorem remains_unary (operates : (state.dialect dialect).Operates) {symbol : Text} {program : Program}
    {datum result : Datum} (operand : Remains environment within depth dialect state program datum)
    (known : datum.unary? symbol = some result) (inside : within result) :
    Remains environment within depth dialect state (program ++ [.unary symbol]) result := by
  intro pending
  obtain ⟨done, later, residue, reads⟩ := operand pending
  cases residue with
  | literal _ =>
      obtain ⟨function, held, applies⟩ := Datum.known_unary known
      obtain ⟨_, ⟨⟩, direct⟩ := direct_of_mem (.inl (List.mem_map_of_mem (Table.mem_of_get? held)))
      rw [← operates.unary] at held
      have step := reads_applyOperator (works_perform_succ depth) held direct applies
      exact ⟨_, _, .literal inside, reads_over_append reads
        (reads_over_step (Eval.reads_bind step (Eval.reads_pure ([], result.value :: pending))))⟩
  | term denotes =>
      refine ⟨_, _, ?_, reads_over_append reads
        (reads_over_step (Eval.reads_pure ([Instruction.unary symbol], [])))⟩
      exact .of_code (.unary denotes known inside) (by simp [Term.code])

theorem remains_binary (operates : (state.dialect dialect).Operates) {symbol : Text}
    {first second : Program} {one two result : Datum}
    (left : Remains environment within depth dialect state first one)
    (right : Remains environment within depth dialect state second two)
    (known : one.binary? symbol two = some result) (inside : within result) :
    Remains environment within depth dialect state (first ++ second ++ [.binary symbol]) result := by
  intro pending
  obtain ⟨done, middle, residueLeft, readsLeft⟩ := left pending
  obtain ⟨others, later, residueRight, readsRight⟩ := right middle
  have operands := reads_over_append readsLeft readsRight
  cases residueRight with
  | literal insideRight =>
      cases residueLeft with
      | literal _ =>
          obtain ⟨-, function, held, applies⟩ := Datum.gives_binary known
          obtain ⟨_, ⟨⟩, direct⟩ :=
            direct_of_mem (.inr (.inl (List.mem_map_of_mem (Table.mem_of_get? held))))
          rw [← operates.binary] at held
          have step := reads_applyOperator (works_perform_succ depth) held direct applies
          exact ⟨_, _, .literal inside, reads_over_append operands
            (reads_over_step (Eval.reads_bind step (Eval.reads_pure ([], result.value :: pending))))⟩
      | @term other denotes =>
          -- One literal is pending, too few for the operator.
          refine ⟨_, _, .of_code (.binary denotes (.literal insideRight) known inside) ?_,
            reads_over_append operands
              (reads_over_step (Eval.reads_pure ([Instruction.literal two.value, .binary symbol], [])))⟩
          simp [Term.code]
  | @term other denotes =>
      obtain ⟨term, denotesLeft, same⟩ := residueLeft.code
      refine ⟨_, _, .of_code (.binary denotesLeft denotes known inside) ?_, reads_over_append operands
        (reads_over_step (Eval.reads_pure ([Instruction.binary symbol], [])))⟩
      rw [← List.append_assoc done, same]
      simp [Term.code]

theorem remains_connective {symbol : Text} {function : Bool → Bool → Bool} {first second : Program}
    {one two : Bool} (listed : (symbol, function) ∈ Datum.connectives)
    (left : Remains environment within depth dialect state first (.bool one))
    (right : Remains environment within depth dialect state second (.bool two))
    (inside : within (.bool (function one two))) :
    Remains environment within depth dialect state (first ++ [.nested second, .binary symbol])
      (.bool (function one two)) := by
  intro pending
  obtain ⟨done, middle, residue, reads⟩ := left pending
  obtain ⟨term, denotes, same⟩ := residue.code
  obtain ⟨other, denotesRight, simplified⟩ := right.nested
  have operator : Eval.Reads False state (simplifyOver (perform (depth + 1)) dialect [] []
      [.binary symbol]) ([.binary symbol], []) :=
    reads_over_step (Eval.reads_pure ([Instruction.binary symbol], []))
  refine ⟨_, _, .of_code (.connective listed denotes denotesRight inside) ?_,
    reads_over_append reads (reads_over_append (reads_over_nested simplified) operator)⟩
  rw [List.append_assoc, ← List.append_assoc done, same]
  simp [Term.code]

theorem remains_conditional {first second third : Program} {met : Bool} {one two : Datum}
    (condition : Remains environment within depth dialect state first (.bool met))
    (yes : Remains environment within depth dialect state second one)
    (no : Remains environment within depth dialect state third two) (alike : one.kind = two.kind)
    (inside : within (if met then one else two)) :
    Remains environment within depth dialect state
      (first ++ [.nested second, .nested third, .ternary Term.conditionSymbol])
      (if met then one else two) := by
  intro pending
  obtain ⟨done, middle, residue, reads⟩ := condition pending
  obtain ⟨term, denotes, same⟩ := residue.code
  obtain ⟨arm, denotesYes, simplified⟩ := yes.nested
  obtain ⟨other, denotesNo, simplifiedNo⟩ := no.nested
  have operator : Eval.Reads False state (simplifyOver (perform (depth + 1)) dialect [] []
      [.ternary Term.conditionSymbol]) ([.ternary Term.conditionSymbol], []) :=
    reads_over_step (Eval.reads_pure ([Instruction.ternary Term.conditionSymbol], []))
  refine ⟨_, _, .of_code (.conditional denotes denotesYes denotesNo alike inside) ?_,
    reads_over_append reads (reads_over_append (reads_over_nested simplified)
      (reads_over_append (reads_over_nested simplifiedNo) operator))⟩
  rw [List.append_assoc, ← List.append_assoc done, same]
  simp [Term.code, flushed_nil]

/-- The arguments of a call become others that denote the same. -/
theorem remains_each {arguments : List Term} {numbers : List Int} (each : List.Forall₂
      (fun argument number => Remains environment within depth dialect state argument.code (.int number))
      arguments numbers) (pending : List Value) :
    ∃ done later others, List.Forall₂
        (fun argument number => Denotes environment within argument (.int number)) others numbers ∧
      done ++ flushed later = flushed pending ++ Term.codeAll others ∧ Eval.Reads False state
        (simplifyOver (perform (depth + 1)) dialect [] pending (Term.codeAll arguments)) (done, later) := by
  induction each generalizing pending with
  | nil => exact ⟨[], pending, [], .nil, (List.append_nil _).symm, Eval.reads_pure _⟩
  | cons first _ ih =>
      obtain ⟨done, middle, residue, reads⟩ := first pending
      obtain ⟨term, denotes, same⟩ := residue.code
      obtain ⟨rest, later, others, denotesOthers, sameOthers, readsOthers⟩ := ih middle
      refine ⟨_, _, term :: others, .cons denotes denotesOthers, ?_, reads_over_append reads readsOthers⟩
      rw [List.append_assoc, sameOthers, ← List.append_assoc, same, List.append_assoc]
      rfl

theorem remains_extremum {name : Text} {function : Int → Int → Int} {arguments : List Term}
    {first second : Int} {others : List Int} (listed : (name, function) ∈ Datum.extrema)
    (each : List.Forall₂ (fun argument number =>
      Remains environment within depth dialect state argument.code (.int number)) arguments
        (first :: second :: others))
    (inside : within (.int ((second :: others).foldl function first))) :
    Remains environment within depth dialect state
      ([.name name] ++ Term.codeAll arguments ++ [.call arguments.length])
      (.int ((second :: others).foldl function first)) := by
  intro pending
  obtain ⟨done, later, kept, denotes, same, reads⟩ := remains_each each []
  obtain ⟨count, denotesEach⟩ := List.forall₂_iff_zip.mp denotes
  have callee : Eval.Reads False state (simplifyOver (perform (depth + 1)) dialect [] pending
      [.name name]) (flushed pending ++ [.name name], []) :=
    reads_over_step (Eval.reads_get (Eval.reads_pure (flushed pending ++ [.name name], [])))
  have call : Eval.Reads False state (simplifyOver (perform (depth + 1)) dialect [] later
      [.call arguments.length]) (flushed later ++ [.call arguments.length], []) :=
    reads_over_step (Eval.reads_pure (flushed later ++ [Instruction.call arguments.length], []))
  refine ⟨_, _, .of_code (.extremum listed count (fun _ _ pair => denotesEach pair) inside) ?_,
    reads_over_append (reads_over_append callee reads) call⟩
  have lengths : arguments.length = kept.length := each.length_eq.trans count.symm
  rw [List.append_assoc, ← List.append_assoc done, same, lengths]
  simp [Term.code, flushed_nil]

/-- Simplification of an expression leaves one that denotes the same. -/
theorem remains_denotes (operates : (state.dialect dialect).Operates) {term : Term} {datum : Datum}
    (denotes : Denotes environment within term datum) :
    Remains environment within depth dialect state term.code datum := by
  induction denotes with
  | literal inside => exact fun pending => ⟨_, _, .literal inside, Eval.reads_pure _⟩
  | argument known inside => exact remains_name known inside
  | unary _ known inside ih => exact remains_unary operates ih known inside
  | binary _ _ known inside ihLeft ihRight =>
      exact remains_binary operates ihLeft ihRight known inside
  | connective listed _ _ inside ihLeft ihRight =>
      exact remains_connective listed ihLeft ihRight inside
  | conditional _ _ _ alike inside ih ihYes ihNo =>
      exact remains_conditional ih ihYes ihNo alike inside
  | extremum listed count _ inside ih =>
      exact remains_extremum listed (List.forall₂_iff_zip.mpr ⟨count, ih _ _⟩) inside

end Simplification

/-- Simplification of an expression succeeds with one that denotes the same. -/
theorem Denotes.simplifies {environment : Text → Option Datum} {within : Datum → Prop} {dialect : Nat}
    {state : State} (operates : (state.dialect dialect).Operates) {term : Term} {datum : Datum}
    (denotes : Denotes environment within term datum) (depth : Nat) :
    ∃ other : Term, Denotes environment within other datum ∧
      term.code.simplify (perform (depth + 1)) dialect [] state = some (.ok other.code, state) := by
  obtain ⟨other, denotesOther, simplified⟩ := (Simplification.remains_denotes operates denotes).nested
  exact ⟨other, denotesOther, simplified.resolve_right fun spent => spent.1⟩

end Formula
