import Mathlib.Data.List.Forall2
import Formula.Simplification
import Formula.Proofs.Evaluation

/-!
What simplification makes of a program: stretches of instructions that come to a known value become
that value, and everything else stays in place.
-/

namespace Formula

/-- What is known of values while a program is simplified. -/
structure Facts where
  name : Text → Value → Prop
  unary : Text → Value → Value → Prop
  binary : Text → Value → Value → Value → Prop
  truth : Value → Bool → Prop
  ternary : Text → Value → Value → Value → Value → Prop
  member : Value → Text → Value → Prop

/-- Instructions that come to a known value. -/
inductive Comes (facts : Facts) : Program → Value → Prop
  | literal (value : Value) : Comes facts [.literal value] value
  | name {word : Text} {value : Value} (known : facts.name word value) :
      Comes facts [.name word] value
  | unary {symbol : Text} {program : Program} {operand value : Value}
      (constant : Comes facts program operand) (known : facts.unary symbol operand value) :
      Comes facts (program ++ [.unary symbol]) value
  | binary {symbol : Text} {first second : Program} {left right value : Value}
      (constantLeft : Comes facts first left) (constantRight : Comes facts second right)
      (known : facts.binary symbol left right value) :
      Comes facts (first ++ second ++ [.binary symbol]) value
  | choose {first second third : Program} {condition yes no value : Value} {met : Bool}
      (constantCondition : Comes facts first condition) (constantYes : Comes facts second yes)
      (constantNo : Comes facts third no) (known : facts.truth condition met)
      (chosen : value = if met then yes else no) :
      Comes facts (first ++ second ++ third ++ [.ternary (Text.ofString "?")]) value
  | ternary {symbol : Text} {one two three : Program} {first second third value : Value}
      (other : symbol ≠ Text.ofString "?")
      (constantFirst : Comes facts one first) (constantSecond : Comes facts two second)
      (constantThird : Comes facts three third)
      (known : facts.ternary symbol first second third value) :
      Comes facts (one ++ two ++ three ++ [.ternary symbol]) value
  | member {word : Text} {program : Program} {object value : Value}
      (constant : Comes facts program object) (known : facts.member object word value) :
      Comes facts (program ++ [.member word]) value

/-- A program, and what may be left of it when known values are worked out. -/
inductive Folds (facts : Facts) : Program → Program → Prop
  | nil : Folds facts [] []
  | constant {stretch before after : Program} {value : Value}
      (comes : Comes facts stretch value) (rest : Folds facts before after) :
      Folds facts (stretch ++ before) (.literal value :: after)
  | nested {inner folded before after : Program} (parts : Folds facts inner folded)
      (rest : Folds facts before after) :
      Folds facts (.nested inner :: before) (.nested folded :: after)
  | same (instruction : Instruction) {before after : Program} (rest : Folds facts before after) :
      Folds facts (instruction :: before) (instruction :: after)

namespace Folds

variable {facts : Facts}

theorem refl (program : Program) : Folds facts program program := by
  induction program with
  | nil => exact .nil
  | cons instruction rest ih => exact .same instruction ih

theorem append {before after first last : Program} (left : Folds facts before after)
    (right : Folds facts first last) : Folds facts (before ++ first) (after ++ last) := by
  induction left with
  | nil => exact right
  | constant comes rest ih => rw [List.append_assoc]; exact .constant comes ih
  | nested parts rest ihParts ih => exact .nested parts ih
  | same instruction rest ih => exact .same instruction ih

end Folds

namespace Simplification

/-- Stretches of instructions, the latest first, that come to the values that are pending. -/
abbrev Pending (facts : Facts) : List Program → List Value → Prop := List.Forall₂ (Comes facts)

/-- The instructions of the stretches in order. -/
def stretched (stretches : List Program) : Program := stretches.reverse.flatten

variable {facts : Facts}

theorem folds_flushed {stretches : List Program} {pending : List Value}
    (comes : Pending facts stretches pending) :
    Folds facts (stretched stretches) (flushed pending) := by
  induction comes with
  | nil => exact .nil
  | @cons stretch value stretches pending first rest ih =>
      have last : Folds facts (stretch ++ []) [.literal value] := .constant first .nil
      rw [List.append_nil] at last
      simpa [stretched, flushed] using ih.append last

/-- What simplification learns in a state is a fact, and such states last. -/
structure Learns (perform : Machine.Perform) (dialect : Nat) (values : Entries) (facts : Facts)
    (states : State → Prop) : Prop where
  name : ∀ {state word value}, states state → known? values state.heap word = some value →
    facts.name word value
  unary : ∀ {state after symbol operand value}, states state →
    applyOperator perform dialect Dialect.unary symbol [operand] state = some (.ok value, after) →
    facts.unary symbol operand value ∧ states after
  binary : ∀ {state after symbol left right value}, states state →
    applyOperator perform dialect Dialect.binary symbol [left, right] state =
      some (.ok value, after) →
    facts.binary symbol left right value ∧ states after
  truth : ∀ {state} value, states state → facts.truth value (state.heap.truth value)
  ternary : ∀ {state after symbol first second third value}, states state →
    applyOperator perform dialect Dialect.ternary symbol [first, second, third] state =
      some (.ok value, after) →
    facts.ternary symbol first second third value ∧ states after
  member : ∀ {state object word value}, states state → Text.isReserved word = false →
    state.heap.member object word = .value value → value.isCallable = false →
    facts.member object word value

variable {perform : Machine.Perform} {dialect : Nat} {values : Entries} {states : State → Prop}

/-- What came of an instruction after some stretches: a folded part, and stretches still pending. -/
def Settled (facts : Facts) (program done : Program) (pending : List Value) : Prop :=
  ∃ before stretches, program = before ++ stretched stretches ∧ Folds facts before done ∧
    Pending facts stretches pending

theorem settled_kept {stretches : List Program} {pending : List Value}
    (comes : Pending facts stretches pending) {one two : Instruction}
    (folds : Folds facts [one] [two]) :
    Settled facts (stretched stretches ++ [one]) (flushed pending ++ [two]) [] :=
  ⟨_, [], (List.append_nil _).symm, (folds_flushed comes).append folds, .nil⟩

theorem settled_pushed {stretches : List Program} {pending : List Value}
    (comes : Pending facts stretches pending) {stretch : Program} {value : Value}
    (constant : Comes facts stretch value) {program : Program}
    (content : program = stretched stretches ++ stretch) :
    Settled facts program [] (value :: pending) :=
  ⟨[], stretch :: stretches, by simp [content, stretched], .nil, .cons constant comes⟩

/-- A member of a known value is known too, unless it is callable. -/
theorem settled_member (learns : Learns perform dialect values facts states)
    {stretches : List Program} {pending later : List Value} {done stretch : Program}
    {word : Text} {object : Value} {state after : State} (known : states state)
    (constant : Comes facts stretch object) (comes : Pending facts stretches pending)
    (found : simplifyStep perform dialect values (object :: pending) (.member word) state =
      some (.ok (done, later), after)) :
    states after ∧ Settled facts (stretched (stretch :: stretches) ++ [.member word]) done later := by
  have kept : Settled facts (stretched (stretch :: stretches) ++ [.member word])
      (flushed (object :: pending) ++ [.member word]) [] :=
    settled_kept (.cons constant comes) (.refl _)
  simp only [simplifyStep] at found
  cases reserved : Text.isReserved word with
  | true =>
      rw [reserved] at found
      cases found
  | false =>
      simp only [reserved, Bool.false_eq_true, if_false, Eval.get_bind_apply] at found
      cases member : state.heap.member object word with
      | method =>
          simp only [member] at found
          cases found
          exact ⟨known, kept⟩
      | value value =>
          simp only [member] at found
          cases callable : value.isCallable with
          | true =>
              rw [callable] at found
              cases found
              exact ⟨known, kept⟩
          | false =>
              rw [callable] at found
              cases found
              exact ⟨known, settled_pushed comes
                (.member constant (learns.member known reserved member callable))
                (by simp [stretched])⟩

/-- What an instruction makes of the pending stretches, if a program in it folds. -/
theorem settled_step (learns : Learns perform dialect values facts states)
    {stretches : List Program} {pending later : List Value} {done : Program}
    {instruction : Instruction} {state after : State} (known : states state)
    (comes : Pending facts stretches pending)
    (parts : ∀ part result, instruction = .nested part →
      simplifyFrom perform dialect values [] part state = some (.ok result, after) →
      states after ∧ Folds facts part result)
    (found : simplifyStep perform dialect values pending instruction state =
      some (.ok (done, later), after)) :
    states after ∧ Settled facts (stretched stretches ++ [instruction]) done later := by
  unfold simplifyStep at found
  split at found
  · cases found
    exact ⟨known, settled_pushed comes (.literal _) rfl⟩
  · rename_i word
    rw [Eval.get_bind_apply] at found
    cases named : known? values state.heap word with
    | some value =>
        simp only [named] at found
        cases found
        exact ⟨known, settled_pushed comes (.name (learns.name known named)) rfl⟩
    | none =>
        simp only [named] at found
        cases found
        exact ⟨known, settled_kept comes (.refl _)⟩
  · obtain ⟨value, between, came, built⟩ := Eval.bind_eq_ok found
    cases built
    obtain ⟨fact, knownAfter⟩ := learns.unary known came
    cases comes with
    | @cons stretch _ lower _ constant rest =>
        exact ⟨knownAfter, settled_pushed rest (.unary constant fact) (by simp [stretched])⟩
  · obtain ⟨value, between, came, built⟩ := Eval.bind_eq_ok found
    cases built
    obtain ⟨fact, knownAfter⟩ := learns.binary known came
    cases comes with
    | cons constantRight rest =>
        cases rest with
        | cons constantLeft rest =>
            exact ⟨knownAfter, settled_pushed rest (.binary constantLeft constantRight fact)
              (by simp [stretched])⟩
  · cases comes with
    | cons constantThird rest =>
        cases rest with
        | cons constantSecond rest =>
            cases rest with
            | cons constantFirst rest =>
                split at found
                · rename_i choice
                  rw [Eval.get_bind_apply] at found
                  cases found
                  subst choice
                  exact ⟨known, settled_pushed rest (.choose constantFirst constantSecond
                    constantThird (learns.truth _ known) rfl) (by simp [stretched])⟩
                · rename_i other
                  obtain ⟨value, between, came, built⟩ := Eval.bind_eq_ok found
                  cases built
                  obtain ⟨fact, knownAfter⟩ := learns.ternary known came
                  exact ⟨knownAfter, settled_pushed rest (.ternary other constantFirst
                    constantSecond constantThird fact) (by simp [stretched])⟩
  · rename_i program
    obtain ⟨inner, between, came, built⟩ := Eval.bind_eq_ok found
    cases built
    obtain ⟨knownAfter, folds⟩ := parts program inner rfl came
    exact ⟨knownAfter, settled_kept comes (.nested folds .nil)⟩
  · cases comes with
    | cons constant rest =>
        exact settled_member learns known constant rest found
  · cases found
    exact ⟨known, settled_kept comes (.refl _)⟩

theorem folds_from (learns : Learns perform dialect values facts states)
    {stretches : List Program} {pending : List Value} {result : Program}
    (program : List Instruction) {state after : State} (known : states state)
    (comes : Pending facts stretches pending)
    (found : simplifyFrom perform dialect values pending program state = some (.ok result, after)) :
    states after ∧ Folds facts (stretched stretches ++ program) result := by
  cases program with
  | nil =>
      cases found
      rw [List.append_nil]
      exact ⟨known, folds_flushed comes⟩
  | cons instruction rest =>
      obtain ⟨⟨done, later⟩, between, came, continued⟩ := Eval.bind_eq_ok found
      obtain ⟨others, last, finished, built⟩ := Eval.bind_eq_ok continued
      cases built
      obtain ⟨knownBetween, before, pendingStretches, content, folded, settled⟩ :=
        settled_step learns known comes
          (fun part result _ inner => folds_from learns part known .nil inner) came
      obtain ⟨knownLast, folds⟩ := folds_from learns rest knownBetween settled finished
      refine ⟨knownLast, ?_⟩
      rw [List.append_cons, content, List.append_assoc]
      exact folded.append folds

/-- A program that simplification gives is the given one, folded. -/
theorem folds_simplify (learns : Learns perform dialect values facts states)
    {program result : Program} {state after : State} (known : states state)
    (found : program.simplify perform dialect values state = some (.ok result, after)) :
    states after ∧ Folds facts program result :=
  folds_from learns program known .nil found

end Simplification

end Formula
