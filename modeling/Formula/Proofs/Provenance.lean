import Formula.Proofs.Circulation

/-!
Programs in circulation are programs of terms: substitution and simplification, which work on programs,
lead from the program of a term to that of another.
-/

namespace Formula

namespace Term

open Instruction (substituteAll)

section

variable (sought : Text) (replacement : Term)

mutual

/-- The term with another in place of each reading of a name. -/
def substitute : Term → Term
  | .literal value => .literal value
  | .name word => if word = sought then replacement else .name word
  | .unary symbol operand => .unary symbol (operand.substitute)
  | .binary symbol left right =>
    .binary symbol (left.substitute) (right.substitute)
  | .shortCircuit symbol left right =>
    .shortCircuit symbol (left.substitute) (right.substitute)
  | .conditional condition yes no =>
    .conditional (condition.substitute) (yes.substitute)
      (no.substitute)
  | .assign target value => .assign target (value.substitute)
  | .assignMember object key value =>
    .assignMember (object.substitute) key (value.substitute)
  | .define function parameters body => .define function parameters (body.substitute)
  | .call callee arguments =>
    .call (callee.substitute) (substituteEach arguments)
  | .member object key => .member (object.substitute) key
  | .array items => .array (substituteEach items)
  | .statement body => .statement (body.substitute)
  | .sequence first rest =>
    .sequence (first.substitute) (rest.substitute)

def substituteEach : List Term → List Term
  | [] => []
  | term :: rest => term.substitute :: substituteEach rest

end

end

variable {sought : Text} {replacement : Term}

theorem substituteAll_append (first second : Program) :
    substituteAll sought replacement.code (first ++ second) =
      substituteAll sought replacement.code first ++ substituteAll sought replacement.code second := by
  induction first with
  | nil => rfl
  | cons instruction rest ih => rw [List.cons_append, substituteAll, ih, substituteAll, List.append_assoc]

theorem substituteAll_targets (names : List Text) :
    substituteAll sought replacement.code (names.map .target) = names.map .target := by
  induction names with
  | nil => rfl
  | cons name rest ih => rw [List.map_cons, substituteAll, ih]; rfl

@[simp] theorem length_substituteEach (terms : List Term) :
    (substituteEach sought replacement terms).length = terms.length := by
  induction terms with
  | nil => rfl
  | cons term rest ih => simp only [substituteEach, List.length_cons, ih]

variable (sought replacement)

mutual

/-- Substitution in the program of a term is substitution in the term. -/
theorem code_substitute (term : Term) :
    (substitute sought replacement term).code = substituteAll sought replacement.code term.code := by
  match term with
  | .literal value => rfl
  | .name word =>
      simp only [substitute, code, substituteAll, Instruction.substitute]
      split <;> simp [code]
  | .unary symbol operand | .member operand symbol =>
      simp only [substitute, code, substituteAll_append, code_substitute operand]
      rfl
  | .binary symbol left right =>
      simp only [substitute, code, substituteAll_append, code_substitute left, code_substitute right]
      rfl
  | .shortCircuit symbol left right =>
      simp only [substitute, code, substituteAll_append, code_substitute left, code_substitute right]
      rfl
  | .conditional condition yes no =>
      simp only [substitute, code, substituteAll_append, code_substitute condition,
        code_substitute yes, code_substitute no]
      rfl
  | .assign target value =>
      simp only [substitute, code, code_substitute value]
      rfl
  | .assignMember object key value =>
      simp only [substitute, code, substituteAll_append, code_substitute object, code_substitute value]
      rfl
  | .define function parameters body =>
      have targets : substituteAll sought replacement.code (.target function :: parameters.map .target) =
        .target function :: parameters.map .target := substituteAll_targets (function :: parameters)
      simp only [substitute, code, substituteAll_append, targets, code_substitute body]
      rfl
  | .call callee arguments =>
      simp only [substitute, code, substituteAll_append, code_substitute callee,
        code_substituteEach arguments, length_substituteEach]
      rfl
  | .array items =>
      simp only [substitute, code, substituteAll_append, code_substituteEach items,
        length_substituteEach]
      rfl
  | .statement body =>
      simp only [substitute, code, code_substitute body]
      rfl
  | .sequence first rest =>
      simp only [substitute, code, code_substitute first, code_substitute rest, substituteAll,
        Instruction.substitute, substituteAll_append]
      rfl

theorem code_substituteEach (terms : List Term) :
    codeAll (substituteEach sought replacement terms) =
      substituteAll sought replacement.code (codeAll terms) := by
  match terms with
  | [] => rfl
  | term :: rest =>
      simp only [substituteEach, codeAll, substituteAll_append, code_substitute term,
        code_substituteEach rest]

end

end Term

/-- Terms that come to a known value when operators are worked out. -/
inductive Term.Amounts (facts : Facts) : Term → Value → Prop
  | literal (value : Value) : Amounts facts (.literal value) value
  | name {word : Text} {value : Value} (known : facts.name word value) : Amounts facts (.name word) value
  | unary {symbol : Text} {operand : Term} {given value : Value} (amounts : Amounts facts operand given)
      (known : facts.unary symbol given value) : Amounts facts (.unary symbol operand) value
  | binary {symbol : Text} {left right : Term} {one two value : Value} (first : Amounts facts left one)
      (second : Amounts facts right two) (known : facts.binary symbol one two value) :
      Amounts facts (.binary symbol left right) value
  | member {word : Text} {object : Term} {given value : Value} (amounts : Amounts facts object given)
      (known : facts.member given word value) : Amounts facts (.member object word) value

mutual

/-- A term, and what may be left of it when known values are worked out: of other names, some are kept. -/
inductive Term.Reduces (facts : Facts) (keeps : Text → Prop) : Term → Term → Prop
  | amounts {term : Term} {value : Value} (amounts : term.Amounts facts value) :
      Reduces facts keeps term (.literal value)
  | name {word : Text} (kept : keeps word) : Reduces facts keeps (.name word) (.name word)
  | unary (symbol : Text) {one two : Term} (operands : Reduces facts keeps one two) :
      Reduces facts keeps (.unary symbol one) (.unary symbol two)
  | binary (symbol : Text) {left one right two : Term} (lefts : Reduces facts keeps left one)
      (rights : Reduces facts keeps right two) : Reduces facts keeps (.binary symbol left right) (.binary symbol one two)
  | shortCircuit (symbol : Text) {left one right two : Term} (lefts : Reduces facts keeps left one)
      (rights : Reduces facts keeps right two) :
      Reduces facts keeps (.shortCircuit symbol left right) (.shortCircuit symbol one two)
  | conditional {condition one yes two no three : Term} (conditions : Reduces facts keeps condition one)
      (yeses : Reduces facts keeps yes two) (noes : Reduces facts keeps no three) :
      Reduces facts keeps (.conditional condition yes no) (.conditional one two three)
  | assign (target : Text) {one two : Term} (values : Reduces facts keeps one two) :
      Reduces facts keeps (.assign target one) (.assign target two)
  | assignMember (key : Text) {object one value two : Term} (objects : Reduces facts keeps object one)
      (values : Reduces facts keeps value two) :
      Reduces facts keeps (.assignMember object key value) (.assignMember one key two)
  | define (name : Text) (parameters : List Text) {one two : Term} (bodies : Reduces facts keeps one two) :
      Reduces facts keeps (.define name parameters one) (.define name parameters two)
  | call {callee one : Term} {arguments others : List Term} (callees : Reduces facts keeps callee one)
      (each : ReducesEach facts keeps arguments others) : Reduces facts keeps (.call callee arguments) (.call one others)
  | member (key : Text) {one two : Term} (objects : Reduces facts keeps one two) :
      Reduces facts keeps (.member one key) (.member two key)
  | array {items others : List Term} (each : ReducesEach facts keeps items others) :
      Reduces facts keeps (.array items) (.array others)
  | statement {one two : Term} (bodies : Reduces facts keeps one two) :
      Reduces facts keeps (.statement one) (.statement two)
  | sequence {first one rest two : Term} (firsts : Reduces facts keeps first one)
      (rests : Reduces facts keeps rest two) : Reduces facts keeps (.sequence first rest) (.sequence one two)

inductive Term.ReducesEach (facts : Facts) (keeps : Text → Prop) : List Term → List Term → Prop
  | nil : ReducesEach facts keeps [] []
  | cons {one two : Term} {ones twos : List Term} (first : Term.Reduces facts keeps one two)
      (rest : ReducesEach facts keeps ones twos) : ReducesEach facts keeps (one :: ones) (two :: twos)

end

/-- Reduced terms are as many. -/
theorem Term.ReducesEach.length_eq {facts : Facts} {keeps : Text → Prop} {terms others : List Term}
    (each : Term.ReducesEach facts keeps terms others) : terms.length = others.length := by
  induction terms generalizing others with
  | nil =>
      cases each
      rfl
  | cons term rest ih =>
      cases each with
      | cons _ rests => exact congrArg (· + 1) (ih rests)

namespace Simplification

section

variable (perform : Machine.Perform) (dialect : Nat) (values : Entries)

/-- What takes the place of a stretch of instructions, and the literals that may still be folded after
it. -/
def simplifyOver (pending : List Value) : List Instruction → Eval (Program × List Value)
  | [] => return ([], pending)
  | instruction :: rest => do
    let (done, pending) ← simplifyStep perform dialect values pending instruction
    let (others, pending) ← simplifyOver pending rest
    return (done ++ others, pending)

theorem simplifyFrom_eq (pending : List Value) (program : List Instruction) :
    simplifyFrom perform dialect values pending program =
      simplifyOver perform dialect values pending program >>= fun (done, pending) =>
        return done ++ flushed pending := by
  induction program generalizing pending with
  | nil => rw [simplifyFrom, simplifyOver, pure_bind]; rfl
  | cons instruction rest ih =>
      simp only [simplifyFrom, simplifyOver, ih, bind_assoc, pure_bind, List.append_assoc]

theorem simplifyOver_append (pending : List Value) (first second : List Instruction) :
    simplifyOver perform dialect values pending (first ++ second) =
      simplifyOver perform dialect values pending first >>= fun (done, pending) =>
        simplifyOver perform dialect values pending second >>= fun (others, pending) =>
          return (done ++ others, pending) := by
  induction first generalizing pending with
  | nil => simp [simplifyOver]
  | cons instruction rest ih =>
      simp only [List.cons_append, simplifyOver, ih, bind_assoc, pure_bind, List.append_assoc]

variable (states : State → Prop)

/-- What simplification may leave of a stretch of instructions after some literals, in some state. -/
def Leaves (pending : List Value) (program done : Program) (later : List Value) : Prop :=
  ∃ state after, states state ∧
    simplifyOver perform dialect values pending program state = some (.ok (done, later), after)

/-- What simplification may make of a program, in some state. -/
def Becomes (program result : Program) : Prop :=
  ∃ state after, states state ∧
    simplifyFrom perform dialect values [] program state = some (.ok result, after)

end

variable {perform : Machine.Perform} {dialect : Nat} {values : Entries} {states : State → Prop}
  {facts : Facts} {keeps : Text → Prop} {pending later : List Value} {done result : Program}

theorem flushed_nil : flushed [] = [] := rfl

theorem flushed_cons (value : Value) : flushed (value :: pending) = flushed pending ++ [.literal value] := by
  simp [flushed]

theorem Becomes.leaves {program : Program} (becomes : Becomes perform dialect values states program result) :
    ∃ done later, Leaves perform dialect values states [] program done later ∧
      result = done ++ flushed later := by
  obtain ⟨state, after, known, found⟩ := becomes
  rw [simplifyFrom_eq] at found
  obtain ⟨⟨done, later⟩, between, came, built⟩ := Eval.bind_eq_ok found
  cases built
  exact ⟨done, later, ⟨state, _, known, came⟩, rfl⟩

/-- The states in which simplification learns last, whatever is pending. -/
theorem Learns.lasts (learns : Learns perform dialect values facts states) {program : Program}
    {state after : State} (known : states state)
    (found : simplifyOver perform dialect values pending program state = some (.ok (done, later), after)) :
    states after := by
  have whole : simplifyFrom perform dialect values pending program state =
      some (.ok (done ++ flushed later), after) := by
    rw [simplifyFrom_eq, Eval.bind_apply, found]
    rfl
  have literals : Pending facts (pending.map fun value => [.literal value]) pending :=
    List.forall₂_map_left_iff.mpr (List.forall₂_same.mpr fun value _ => .literal value)
  exact (folds_from learns program known literals whole).1

namespace Leaves

theorem step {instruction : Instruction}
    (leaves : Leaves perform dialect values states pending [instruction] done later) :
    ∃ state after, states state ∧ simplifyStep perform dialect values pending instruction state =
      some (.ok (done, later), after) := by
  obtain ⟨state, after, known, found⟩ := leaves
  obtain ⟨⟨first, middle⟩, between, came, continued⟩ := Eval.bind_eq_ok found
  cases continued
  rw [List.append_nil]
  exact ⟨state, _, known, came⟩

/-- At the end of a stretch, an instruction that is not folded. -/
theorem last {instruction : Instruction}
    (leaves : Leaves perform dialect values states pending [instruction] done later)
    (same : simplifyStep perform dialect values pending instruction =
      return (flushed pending ++ [instruction], [])) :
    done = flushed pending ++ [instruction] ∧ later = [] := by
  obtain ⟨state, after, -, found⟩ := leaves.step
  rw [same] at found
  cases found
  exact ⟨rfl, rfl⟩

section

variable (learns : Learns perform dialect values facts states)

include learns

theorem append {first second : Program}
    (leaves : Leaves perform dialect values states pending (first ++ second) done later) :
    ∃ one middle two, Leaves perform dialect values states pending first one middle ∧
      Leaves perform dialect values states middle second two later ∧ done = one ++ two := by
  obtain ⟨state, after, known, found⟩ := leaves
  rw [simplifyOver_append] at found
  obtain ⟨⟨one, middle⟩, between, came, continued⟩ := Eval.bind_eq_ok found
  obtain ⟨⟨two, last⟩, final, finished, built⟩ := Eval.bind_eq_ok continued
  cases built
  exact ⟨one, middle, two, ⟨state, between, known, came⟩,
    ⟨between, _, learns.lasts known came, finished⟩, rfl⟩

/-- Before an instruction that is not folded, the pending literals are flushed. -/
theorem kept {instruction : Instruction} {rest : Program}
    (leaves : Leaves perform dialect values states pending (instruction :: rest) done later)
    (same : simplifyStep perform dialect values pending instruction =
      return (flushed pending ++ [instruction], [])) :
    ∃ others, Leaves perform dialect values states [] rest others later ∧
      done = flushed pending ++ instruction :: others := by
  have parts : Leaves perform dialect values states pending ([instruction] ++ rest) done later := leaves
  obtain ⟨one, middle, two, first, second, rfl⟩ := parts.append learns
  obtain ⟨state, after, -, found⟩ := first.step
  rw [same] at found
  cases found
  exact ⟨two, second, List.append_assoc ..⟩

theorem nested {program rest : Program}
    (leaves : Leaves perform dialect values states pending (.nested program :: rest) done later) :
    ∃ inner others, Becomes perform dialect values states program inner ∧
      Leaves perform dialect values states [] rest others later ∧
      done = flushed pending ++ .nested inner :: others := by
  have parts : Leaves perform dialect values states pending ([.nested program] ++ rest) done later := leaves
  obtain ⟨one, middle, two, first, second, rfl⟩ := parts.append learns
  obtain ⟨state, after, known, found⟩ := first.step
  obtain ⟨inner, between, came, built⟩ := Eval.bind_eq_ok found
  cases built
  exact ⟨inner, two, ⟨state, _, known, came⟩, second, List.append_assoc ..⟩

/-- A nested program and its operator, as the program of a term ends if a side of it may stay unevaluated. -/
theorem nestedLast {program : Program} {instruction : Instruction}
    (leaves : Leaves perform dialect values states pending [.nested program, instruction] done later)
    (same : simplifyStep perform dialect values [] instruction = return ([instruction], [])) :
    ∃ inner, Becomes perform dialect values states program inner ∧
      done = flushed pending ++ [.nested inner, instruction] ∧ later = [] := by
  obtain ⟨inner, others, became, second, rfl⟩ := leaves.nested learns
  obtain ⟨rfl, rfl⟩ := second.last same
  exact ⟨inner, became, rfl, rfl⟩

theorem targets {names : List Text} {rest : Program}
    (leaves : Leaves perform dialect values states [] (names.map .target ++ rest) done later) :
    ∃ others, Leaves perform dialect values states [] rest others later ∧
      done = names.map .target ++ others := by
  induction names generalizing done with
  | nil => exact ⟨done, leaves, rfl⟩
  | cons name names ih =>
      obtain ⟨others, second, rfl⟩ := leaves.kept learns rfl
      obtain ⟨last, third, rfl⟩ := ih second
      exact ⟨last, third, rfl⟩

end

end Leaves

/-- What simplification leaves of the program of a term: one more literal that is pending, or the program
of a term after all that was pending. -/
inductive Rest (facts : Facts) (keeps : Text → Prop) (pending : List Value) (term : Term) : Program → List Value → Prop
  | literal {value : Value} (amounts : term.Amounts facts value) :
      Rest facts keeps pending term [] (value :: pending)
  | term {other : Term} (reduces : term.Reduces facts keeps other) :
      Rest facts keeps pending term (flushed pending ++ other.code) []

theorem Rest.of_code {term other : Term} (reduces : term.Reduces facts keeps other)
    (same : done = flushed pending ++ other.code) : Rest facts keeps pending term done [] :=
  same ▸ .term reduces

theorem Rest.code {term : Term} (rest : Rest facts keeps pending term done later) :
    ∃ other, term.Reduces facts keeps other ∧ done ++ flushed later = flushed pending ++ other.code := by
  cases rest with
  | @literal value amounts => exact ⟨.literal value, .amounts amounts, flushed_cons value⟩
  | @term other reduces => exact ⟨other, reduces, List.append_nil _⟩

/-- What simplification makes of a nested program, if it leaves of it what it leaves of a term. -/
theorem Becomes.code {term : Term} (becomes : Becomes perform dialect values states term.code result)
    (rest : ∀ {later : List Value} {done : Program},
      Leaves perform dialect values states [] term.code done later → Rest facts keeps [] term done later) :
    ∃ other, term.Reduces facts keeps other ∧ result = other.code := by
  obtain ⟨done, later, leaves, rfl⟩ := becomes.leaves
  exact (rest leaves).code

section

variable (learns : Learns perform dialect values facts states)

include learns

theorem rest_name {word : Text}
    (spares : ∀ {state}, states state → known? values state.heap word = none → keeps word)
    (leaves : Leaves perform dialect values states pending [.name word] done later) :
    Rest facts keeps pending (.name word) done later := by
  obtain ⟨state, after, known, found⟩ := leaves.step
  simp only [simplifyStep, Eval.get_bind_apply] at found
  cases held : known? values state.heap word with
  | none =>
      rw [held] at found
      cases found
      exact .term (.name (spares known held))
  | some value =>
      rw [held] at found
      cases found
      exact .literal (.name (learns.name known held))

theorem rest_unary {symbol : Text} {operand : Term} {one two : Program} {middle : List Value}
    (rest : Rest facts keeps pending operand one middle)
    (last : Leaves perform dialect values states middle [.unary symbol] two later) :
    Rest facts keeps pending (.unary symbol operand) (one ++ two) later := by
  cases rest with
  | literal amounts =>
      obtain ⟨state, after, known, found⟩ := last.step
      obtain ⟨result, between, came, built⟩ := Eval.bind_eq_ok found
      cases built
      exact .literal (.unary amounts (learns.unary known came).1)
  | term reduces =>
      obtain ⟨rfl, rfl⟩ := last.last rfl
      exact .of_code (.unary symbol reduces) (by simp [flushed_nil, Term.code])

theorem rest_member {name : Text} {object : Term} {one two : Program} {middle : List Value}
    (rest : Rest facts keeps pending object one middle)
    (last : Leaves perform dialect values states middle [.member name] two later) :
    Rest facts keeps pending (.member object name) (one ++ two) later := by
  cases rest with
  | @literal value amounts =>
      have kept : Rest facts keeps pending (.member object name)
          (flushed (value :: pending) ++ [.member name]) [] :=
        .of_code (.member name (.amounts amounts)) (by simp [flushed_cons, Term.code])
      obtain ⟨state, after, known, found⟩ := last.step
      simp only [simplifyStep] at found
      cases reserved : Text.isReserved name with
      | true =>
          rw [reserved] at found
          cases found
      | false =>
          simp only [reserved, Bool.false_eq_true, if_false, Eval.get_bind_apply] at found
          cases member : state.heap.member value name with
          | method =>
              simp only [member] at found
              cases found
              exact kept
          | value result =>
              simp only [member] at found
              split at found
              · cases found
                exact kept
              · rename_i uncallable
                cases found
                exact .literal (.member amounts (learns.member known reserved member
                  (eq_false_of_ne_true uncallable)))
  | term reduces =>
      obtain ⟨rfl, rfl⟩ := last.last rfl
      exact .of_code (.member name reduces) (by simp [flushed_nil, Term.code])

theorem rest_binary {symbol : Text} {left right : Term} {one two three : Program}
    {lower middle : List Value} (first : Rest facts keeps pending left one lower)
    (second : Rest facts keeps lower right two middle)
    (last : Leaves perform dialect values states middle [.binary symbol] three later) :
    Rest facts keeps pending (.binary symbol left right) (one ++ two ++ three) later := by
  cases second with
  | literal amounts =>
      cases first with
      | literal amountsFirst =>
          obtain ⟨state, after, known, found⟩ := last.step
          obtain ⟨result, between, came, built⟩ := Eval.bind_eq_ok found
          cases built
          exact .literal (.binary amountsFirst amounts (learns.binary known came).1)
      | term reduces =>
          -- One literal is pending, too few for the operator.
          obtain ⟨rfl, rfl⟩ := last.last rfl
          exact .of_code (.binary symbol reduces (.amounts amounts))
            (by simp [flushed_nil, flushed_cons, Term.code])
  | @term other reduces =>
      obtain ⟨rfl, rfl⟩ := last.last rfl
      obtain ⟨left, reducesLeft, same⟩ := first.code
      refine .of_code (.binary symbol reducesLeft reduces) ?_
      rw [← List.append_assoc one, same]
      simp [flushed_nil, Term.code]

mutual

/-- No instruction of the program of a term reaches below the operands of its own term: either all of
them are literals, or the pending literals were flushed before the first that is not. -/
theorem rest_of_leaves
    (spares : ∀ {state word}, states state → known? values state.heap word = none → keeps word)
    (term : Term) {pending later : List Value} {done : Program}
    (leaves : Leaves perform dialect values states pending term.code done later) :
    Rest facts keeps pending term done later := by
  match term with
  | .literal value =>
      obtain ⟨state, after, -, found⟩ := leaves.step
      cases found
      exact .literal (.literal value)
  | .name word => exact rest_name learns spares leaves
  | .unary symbol operand =>
      obtain ⟨one, middle, two, first, last, rfl⟩ := leaves.append learns
      exact rest_unary learns (rest_of_leaves spares operand first) last
  | .member object name =>
      obtain ⟨one, middle, two, first, last, rfl⟩ := leaves.append learns
      exact rest_member learns (rest_of_leaves spares object first) last
  | .binary symbol left right =>
      obtain ⟨operands, middle, three, before, last, rfl⟩ := leaves.append learns
      obtain ⟨one, lower, two, first, second, rfl⟩ := before.append learns
      exact rest_binary learns (rest_of_leaves spares left first) (rest_of_leaves spares right second) last
  | .shortCircuit symbol left right =>
      obtain ⟨one, middle, two, first, second, rfl⟩ := leaves.append learns
      obtain ⟨other, reduces, same⟩ := (rest_of_leaves spares left first).code
      obtain ⟨inner, became, rfl, rfl⟩ := second.nestedLast learns rfl
      obtain ⟨right, reducesRight, rfl⟩ := became.code (rest_of_leaves spares right)
      refine .of_code (.shortCircuit symbol reduces reducesRight) ?_
      rw [← List.append_assoc, same, List.append_assoc]
      rfl
  | .conditional condition yes no =>
      obtain ⟨one, middle, two, first, second, rfl⟩ := leaves.append learns
      obtain ⟨other, reduces, same⟩ := (rest_of_leaves spares condition first).code
      obtain ⟨inner, others, became, third, rfl⟩ := second.nested learns
      obtain ⟨innerNo, becameNo, rfl, rfl⟩ := third.nestedLast learns rfl
      obtain ⟨yes, reducesYes, rfl⟩ := became.code (rest_of_leaves spares yes)
      obtain ⟨no, reducesNo, rfl⟩ := becameNo.code (rest_of_leaves spares no)
      refine .of_code (.conditional reduces reducesYes reducesNo) ?_
      rw [← List.append_assoc, same, List.append_assoc]
      rfl
  | .assign name value =>
      obtain ⟨others, second, rfl⟩ := leaves.kept learns rfl
      obtain ⟨inner, became, rfl, rfl⟩ := second.nestedLast learns rfl
      obtain ⟨value, reduces, rfl⟩ := became.code (rest_of_leaves spares value)
      exact .term (.assign name reduces)
  | .assignMember object name value =>
      obtain ⟨one, middle, two, first, second, rfl⟩ := leaves.append learns
      obtain ⟨other, reduces, same⟩ := (rest_of_leaves spares object first).code
      obtain ⟨others, third, rfl⟩ := second.kept learns rfl
      obtain ⟨inner, became, rfl, rfl⟩ := third.nestedLast learns rfl
      obtain ⟨value, reducesValue, rfl⟩ := became.code (rest_of_leaves spares value)
      refine .of_code (.assignMember name reduces reducesValue) ?_
      rw [← List.append_assoc, same, List.append_assoc]
      rfl
  | .define name parameters body =>
      rw [Term.code, List.cons_append] at leaves
      obtain ⟨others, second, rfl⟩ := leaves.kept learns rfl
      obtain ⟨last, third, rfl⟩ := second.targets learns
      obtain ⟨inner, became, rfl, rfl⟩ := third.nestedLast learns rfl
      obtain ⟨body, reduces, rfl⟩ := became.code (rest_of_leaves spares body)
      exact .term (.define name parameters reduces)
  | .call callee arguments =>
      obtain ⟨operands, middle, three, before, last, rfl⟩ := leaves.append learns
      obtain ⟨one, lower, two, first, second, rfl⟩ := before.append learns
      obtain ⟨callee, reduces, same⟩ := (rest_of_leaves spares callee first).code
      obtain ⟨others, each, sameOthers⟩ := reduces_of_leaves spares arguments second
      obtain ⟨rfl, rfl⟩ := last.last rfl
      refine .of_code (.call reduces each) ?_
      rw [← List.append_assoc, List.append_assoc one, sameOthers, ← List.append_assoc, same, each.length_eq]
      simp [Term.code]
  | .array items =>
      obtain ⟨one, middle, two, first, last, rfl⟩ := leaves.append learns
      obtain ⟨others, each, same⟩ := reduces_of_leaves spares items first
      obtain ⟨rfl, rfl⟩ := last.last rfl
      refine .of_code (.array each) ?_
      rw [← List.append_assoc, same, each.length_eq, List.append_assoc]
      rfl
  | .statement body =>
      obtain ⟨inner, others, became, ⟨state, after, -, found⟩, rfl⟩ := leaves.nested learns
      cases found
      obtain ⟨body, reduces, rfl⟩ := became.code (rest_of_leaves spares body)
      exact .term (.statement reduces)
  | .sequence first rest =>
      obtain ⟨inner, others, became, ⟨state, after, -, found⟩, rfl⟩ := leaves.nested learns
      cases found
      -- The program of a sequence is none of a term: its two statements are followed one by one.
      obtain ⟨done, later, left, rfl⟩ := became.leaves
      obtain ⟨one, middle, two, before, second, rfl⟩ := left.append learns
      obtain ⟨other, reduces, same⟩ := (rest_of_leaves spares first before).code
      obtain ⟨others, after, rfl⟩ := second.kept learns rfl
      obtain ⟨last, reducesLast, sameRest⟩ := (rest_of_leaves spares rest after).code
      refine .of_code (.sequence reduces reducesLast) ?_
      have inner : one ++ (flushed middle ++ .discard :: others) ++ flushed later =
          other.code ++ .discard :: last.code := by
        rw [flushed_nil, List.nil_append] at same sameRest
        rw [← same, ← sameRest]
        simp
      rw [inner]
      rfl

theorem reduces_of_leaves
    (spares : ∀ {state word}, states state → known? values state.heap word = none → keeps word)
    (terms : List Term) {pending later : List Value} {done : Program}
    (leaves : Leaves perform dialect values states pending (Term.codeAll terms) done later) :
    ∃ others, Term.ReducesEach facts keeps terms others ∧
      done ++ flushed later = flushed pending ++ Term.codeAll others := by
  match terms with
  | [] =>
      obtain ⟨state, after, -, found⟩ := leaves
      cases found
      exact ⟨[], .nil, (List.append_nil _).symm⟩
  | term :: rest =>
      obtain ⟨one, middle, two, first, second, rfl⟩ := leaves.append learns
      obtain ⟨other, reduces, same⟩ := (rest_of_leaves spares term first).code
      obtain ⟨others, each, sameOthers⟩ := reduces_of_leaves spares rest second
      refine ⟨other :: others, .cons reduces each, ?_⟩
      rw [List.append_assoc, sameOthers, ← List.append_assoc, same, List.append_assoc]
      rfl

end

/-- Simplification of the program of a term gives that of a reduced one. -/
theorem reduces_simplify
    (spares : ∀ {state word}, states state → known? values state.heap word = none → keeps word)
    {term : Term} {state after : State} (known : states state)
    (found : term.code.simplify perform dialect values state = some (.ok result, after)) :
    ∃ other, term.Reduces facts keeps other ∧ result = other.code := by
  have becomes : Becomes perform dialect values states term.code result := ⟨state, after, known, found⟩
  exact becomes.code (rest_of_leaves learns spares term)

end

end Simplification

/-- Every program in circulation is the program of a term. -/
theorem Circulating.code {program : Program} (circulating : Circulating program) :
    ∃ term : Term, program = term.code := by
  induction circulating with
  | @parsed dialect source term found => exact ⟨term, rfl⟩
  | simplified earlier found ih =>
      obtain ⟨term, rfl⟩ := ih
      obtain ⟨other, -, same⟩ := Simplification.reduces_simplify (Simplification.learns_any ..)
        (fun _ _ => trivial) trivial found
      exact ⟨other, same⟩
  | filled earlier word value ih =>
      obtain ⟨term, rfl⟩ := ih
      exact ⟨_, (Term.code_substitute word (.literal value) term).symm⟩
  | substituted earlier word other ih ihOther =>
      obtain ⟨term, rfl⟩ := ih
      obtain ⟨replacement, rfl⟩ := ihOther
      exact ⟨_, (Term.code_substitute word replacement term).symm⟩

end Formula
