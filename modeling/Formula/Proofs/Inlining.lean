import Formula.Proofs.Determinism
import Formula.Proofs.Entering
import Formula.Proofs.Framing
import Formula.Proofs.Splicing

/-!
What the passes that put a value in the place of a name do to functions: they leave parameters no meaning of
their own. The function that is left does what the given one does when the value is given for the parameter.
-/

namespace Formula

open Machine

/-- What stands in the definition of a function. -/
structure Definition where
  name : Text
  parameters : List Text
  body : Program

/-- The function of a definition, as it is defined in a scope. -/
def Definition.function (definition : Definition) (dialect scope : Nat) : DefinedFunction :=
  ⟨definition.name, definition.parameters.map .text, .suspended definition.body, dialect, scope⟩

/-- The targets that stand right before the instruction after this one. -/
def Instruction.targets (targets : List Text) : Instruction → List Text
  | .target word => targets ++ [word]
  | _ => []

mutual

/-- The definitions that an instruction ends or holds, after some targets and before another instruction. -/
def Instruction.definitions (targets : List Text) (next : Option Instruction) : Instruction → List Definition
  | .nested body =>
    (match targets, next with
      | function :: parameters, some (.define _) => [⟨function, parameters, body⟩]
      | _, _ => []) ++ definitionsFrom [] body
  | _ => []

def definitionsFrom (targets : List Text) : List Instruction → List Definition
  | [] => []
  | instruction :: rest =>
    instruction.definitions targets rest.head? ++ definitionsFrom (instruction.targets targets) rest

end

attribute [simp] Instruction.targets Instruction.definitions definitionsFrom

/-- The definitions in a program, at any depth and in their order. -/
def Program.definitions (program : Program) : List Definition := definitionsFrom [] program

namespace Term

mutual

/-- The definitions in a term, at any depth and in their order. -/
def definitions : Term → List Definition
  | .literal _ | .name _ => []
  | .unary _ operand | .assign _ operand | .member operand _ | .statement operand => operand.definitions
  | .binary _ left right | .shortCircuit _ left right | .assignMember left _ right
  | .sequence left right => left.definitions ++ right.definitions
  | .conditional condition yes no => condition.definitions ++ yes.definitions ++ no.definitions
  | .define function parameters body => ⟨function, parameters, body.code⟩ :: body.definitions
  | .call callee arguments => callee.definitions ++ definitionsAll arguments
  | .array items => definitionsAll items

def definitionsAll : List Term → List Definition
  | [] => []
  | term :: rest => term.definitions ++ definitionsAll rest

end

theorem definitionsFrom_targets (targets names : List Text) (rest : Program) :
    definitionsFrom targets (names.map .target ++ rest) = definitionsFrom (targets ++ names) rest := by
  induction names generalizing targets with
  | nil => simp
  | cons name names ih => simp [ih]

mutual

/-- The definitions in the program of a term are those in the term, whatever comes next. -/
theorem definitionsFrom_code (term : Term) (rest : Program) :
    definitionsFrom [] (term.code ++ rest) = term.definitions ++ definitionsFrom [] rest := by
  match term with
  | .literal _ | .name _ => simp [code, definitions]
  | .unary _ operand | .member operand _ => simp [code, definitions, definitionsFrom_code operand]
  | .binary _ left right => simp [code, definitions, definitionsFrom_code left, definitionsFrom_code right]
  | .shortCircuit _ left right =>
      have inner : definitionsFrom [] right.code = right.definitions := by
        simpa using definitionsFrom_code right []
      simp [code, definitions, definitionsFrom_code left, inner]
  | .conditional condition yes no =>
      have inner : definitionsFrom [] yes.code = yes.definitions := by
        simpa using definitionsFrom_code yes []
      have innerNo : definitionsFrom [] no.code = no.definitions := by
        simpa using definitionsFrom_code no []
      simp [code, definitions, definitionsFrom_code condition, inner, innerNo]
  | .assign _ value =>
      have inner : definitionsFrom [] value.code = value.definitions := by
        simpa using definitionsFrom_code value []
      simp [code, definitions, inner]
  | .assignMember object _ value =>
      have inner : definitionsFrom [] value.code = value.definitions := by
        simpa using definitionsFrom_code value []
      simp [code, definitions, definitionsFrom_code object, inner]
  | .define function parameters body =>
      have inner : definitionsFrom [] body.code = body.definitions := by
        simpa using definitionsFrom_code body []
      have targets := definitionsFrom_targets [] (function :: parameters)
        ([.nested body.code, .define parameters.length] ++ rest)
      rw [code, List.append_assoc, definitions]
      exact targets.trans (by simp [inner])
  | .call callee arguments =>
      simp [code, definitions, definitionsFrom_code callee, definitionsFrom_codeAll arguments]
  | .array items => simp [code, definitions, definitionsFrom_codeAll items]
  | .statement body =>
      have inner : definitionsFrom [] body.code = body.definitions := by
        simpa using definitionsFrom_code body []
      simp [code, definitions, inner]
  | .sequence first second =>
      have inner : definitionsFrom [] second.code = second.definitions := by
        simpa using definitionsFrom_code second []
      simp [code, definitions, definitionsFrom_code first, inner]

theorem definitionsFrom_codeAll (terms : List Term) (rest : Program) :
    definitionsFrom [] (codeAll terms ++ rest) = definitionsAll terms ++ definitionsFrom [] rest := by
  match terms with
  | [] => rfl
  | term :: others =>
      simp [codeAll, definitionsAll, definitionsFrom_code term, definitionsFrom_codeAll others]

end

theorem definitions_code (term : Term) : term.code.definitions = term.definitions := by
  have whole := definitionsFrom_code term []
  rwa [List.append_nil, definitionsFrom, List.append_nil] at whole

end Term

namespace Program.Plain

variable {first second : Program} {instruction : Instruction}

theorem inner (plain : Program.Plain (.nested first :: second)) : first.Plain := by
  intro value member
  refine plain value ?_
  rw [Program.contents_cons, Program.contents_nested]
  exact List.mem_append_left _ member

theorem rest (plain : Program.Plain (instruction :: second)) : second.Plain :=
  @Program.Plain.right [instruction] second plain

theorem each {terms : List Term} (plain : Program.Plain (Term.codeAll terms)) :
    ∀ term ∈ terms, term.code.Plain :=
  fun _ among value member => plain value (Program.mem_contents_codeAll among member)

end Program.Plain

/-- A definition, and what is left of it. -/
structure Definition.Reduces (facts : Facts) (keeps : Text → Prop) (one two : Definition) : Prop where
  name : two.name = one.name
  parameters : two.parameters = one.parameters
  bodies : ∃ left right : Term, one.body = left.code ∧ two.body = right.code ∧ left.ordinary = true ∧
    left.code.Plain ∧ left.Reduces facts keeps right

namespace Term

variable {facts : Facts} {keeps : Text → Prop}

/-- Nothing is defined in a term that comes to a known value. -/
theorem Amounts.definitions {term : Term} {value : Value} (amounts : term.Amounts facts value) :
    term.definitions = [] := by
  induction amounts with
  | literal | name => rfl
  | unary _ _ ih | member _ _ ih => exact ih
  | binary _ _ _ ihFirst ihSecond => rw [Term.definitions, ihFirst, ihSecond, List.append_nil]

mutual

/-- The definitions in a reduced term are those of the term, reduced. -/
theorem Reduces.definitions {one two : Term} (reduces : one.Reduces facts keeps two)
    (ordinary : one.ordinary = true) (plain : one.code.Plain) :
    List.Forall₂ (Definition.Reduces facts keeps) one.definitions two.definitions := by
  cases reduces with
  | amounts amounts =>
      rw [amounts.definitions]
      exact .nil
  | name => exact .nil
  | unary _ operands => exact operands.definitions ordinary plain.left
  | binary _ lefts rights =>
      simp only [Term.ordinary, Bool.and_eq_true] at ordinary
      exact List.rel_append (lefts.definitions ordinary.1.2 plain.left.left)
        (rights.definitions ordinary.2 plain.left.right)
  | shortCircuit _ lefts rights =>
      simp only [Term.ordinary, Bool.and_eq_true] at ordinary
      exact List.rel_append (lefts.definitions ordinary.1.2 plain.left)
        (rights.definitions ordinary.2 plain.right.inner)
  | conditional conditions yeses noes =>
      simp only [Term.ordinary, Bool.and_eq_true] at ordinary
      exact List.rel_append (List.rel_append (conditions.definitions ordinary.1.1 plain.left)
        (yeses.definitions ordinary.1.2 plain.right.inner))
        (noes.definitions ordinary.2 plain.right.rest.inner)
  | assign _ values => exact values.definitions ordinary plain.rest.inner
  | assignMember _ objects values =>
      simp only [Term.ordinary, Bool.and_eq_true] at ordinary
      exact List.rel_append (objects.definitions ordinary.1 plain.left)
        (values.definitions ordinary.2 plain.right.rest.inner)
  | define function parameters bodies =>
      have plain : Program.Plain _ := plain.right.inner
      exact .cons ⟨rfl, rfl, _, _, rfl, rfl, ordinary, plain, bodies⟩ (bodies.definitions ordinary plain)
  | call callees each =>
      simp only [Term.ordinary, Bool.and_eq_true, Term.allOrdinary_iff] at ordinary
      exact List.rel_append (callees.definitions ordinary.1 plain.left.left)
        (each.definitions ordinary.2 plain.left.right.each)
  | member _ objects => exact objects.definitions ordinary plain.left
  | array each =>
      simp only [Term.ordinary, Term.allOrdinary_iff] at ordinary
      exact each.definitions ordinary plain.left.each
  | statement bodies => exact bodies.definitions ordinary plain.inner
  | sequence firsts rests =>
      simp only [Term.ordinary, Bool.and_eq_true] at ordinary
      have plain : Program.Plain _ := plain.inner
      exact List.rel_append (firsts.definitions ordinary.1 plain.left)
        (rests.definitions ordinary.2 plain.right.rest)

theorem ReducesEach.definitions {ones twos : List Term} (each : ReducesEach facts keeps ones twos)
    (ordinary : ∀ one ∈ ones, one.ordinary = true) (plain : ∀ one ∈ ones, one.code.Plain) :
    List.Forall₂ (Definition.Reduces facts keeps) (definitionsAll ones) (definitionsAll twos) := by
  cases each with
  | nil => exact .nil
  | cons first rest =>
      rw [List.forall_mem_cons] at ordinary plain
      exact List.rel_append (first.definitions ordinary.1 plain.1) (rest.definitions ordinary.2 plain.2)

end

/-- A term that comes to a known value comes to it wherever the names are known. -/
theorem Amounts.yields {known : Entries} {term : Term} {value : Value}
    (amounts : term.Amounts (knownFacts known) value) (ordinary : term.ordinary = true)
    (plain : term.code.Plain) : Yields known 1 term value := by
  induction amounts with
  | literal value => exact .literal (plain value List.mem_cons_self)
  | name known => exact .name known
  | unary _ known ih => exact .unary (ih ordinary plain.left) known
  | binary _ _ known ihFirst ihSecond =>
      simp only [Term.ordinary, Bool.and_eq_true, decide_eq_true_eq] at ordinary
      exact .binary ordinary.1.1 (ihFirst ordinary.1.2 plain.left.left)
        (ihSecond ordinary.2 plain.left.right) known
  | member _ known ih => exact .member (ih ordinary plain.left) known

end Term

/-- Whether known names are known in every scope of a call, too, and their values are scalars. -/
structure Mirror.Inlines (mirror : Mirror) : Prop where
  lasts : mirror.inner true = true
  alters : mirror.alters
  effort : mirror.effort = 1
  scalars : ∀ name value, named mirror.veil.known name = some value → value.isScalar = true

namespace Term

variable {mirror : Mirror}

mutual

/-- Under a veil, a reduced term comes to the same as the term. -/
theorem Reduces.twins (inlines : mirror.Inlines) {one two : Term} (reduces : one.Reduces (knownFacts mirror.veil.known) keeps two)
    (fits : mirror.Fits (fun word => ¬ keeps word) true one) (plain : one.code.Plain) :
    mirror.Twins true two one := by
  cases reduces with
  | amounts amounts =>
      have yields := amounts.yields fits.ordinary plain
      exact .yields inlines.alters (yields.scalar inlines.scalars) (inlines.effort ▸ yields)
  | name kept =>
      obtain ⟨reads, means⟩ := fits.name.resolve_left (not_not_intro kept)
      exact .name reads means
  | unary _ operands => exact .unary (operands.twins inlines fits.unary plain.left)
  | binary _ lefts rights =>
      obtain ⟨other, fitsLeft, fitsRight⟩ := fits.binary
      exact .binary other (lefts.twins inlines fitsLeft plain.left.left) (rights.twins inlines fitsRight plain.left.right)
  | shortCircuit _ lefts rights =>
      obtain ⟨other, fitsLeft, fitsRight⟩ := fits.shortCircuit
      exact .shortCircuit other (lefts.twins inlines fitsLeft plain.left) (rights.twins inlines fitsRight plain.right.inner)
  | conditional conditions yeses noes =>
      obtain ⟨fitsCondition, fitsYes, fitsNo⟩ := fits.conditional
      exact .conditional (conditions.twins inlines fitsCondition plain.left)
        (yeses.twins inlines fitsYes plain.right.inner) (noes.twins inlines fitsNo plain.right.rest.inner)
  | assign _ values => exact .assign fits.assign.1 (values.twins inlines fits.assign.2 plain.rest.inner)
  | assignMember _ objects values =>
      exact .assignMember (objects.twins inlines fits.assignMember.1 plain.left)
        (values.twins inlines fits.assignMember.2 plain.right.rest.inner)
  | define function parameters bodies =>
      obtain ⟨binds, opens, fitsBody⟩ := fits.define
      rw [inlines.lasts] at fitsBody
      have twins := bodies.twins inlines fitsBody plain.right.inner
      exact .define binds opens (by rwa [inlines.lasts])
  | call callees each =>
      exact .call (callees.twins inlines fits.call.1 plain.left.left) (each.twins inlines fits.call.2 plain.left.right.each)
  | member _ objects => exact .member (objects.twins inlines fits.member plain.left)
  | array each => exact .array (each.twins inlines fits.array plain.left.each)
  | statement bodies => exact .statement (bodies.twins inlines fits.statement plain.inner)
  | sequence firsts rests =>
      have plain : Program.Plain _ := plain.inner
      exact .sequence (firsts.twins inlines fits.sequence.1 plain.left) (rests.twins inlines fits.sequence.2 plain.right.rest)

theorem ReducesEach.twins (inlines : mirror.Inlines) {ones twos : List Term}
    (each : ReducesEach (knownFacts mirror.veil.known) keeps ones twos)
    (fits : ∀ one ∈ ones, mirror.Fits (fun word => ¬ keeps word) true one)
    (plain : ∀ one ∈ ones, one.code.Plain) : mirror.TwinsEach true twos ones := by
  cases each with
  | nil => exact .nil
  | cons first rest =>
      rw [List.forall_mem_cons] at fits plain
      exact .cons (first.twins inlines fits.1 plain.1) (rest.twins inlines fits.2 plain.2)

end

variable {word : Text} {value : Value}

mutual

/-- A value in the place of a name that is known by it. -/
theorem reduces_substitute (known : facts.name word value) (term : Term) :
    term.Reduces facts (· ≠ word) (substitute word (.literal value) term) := by
  match term with
  | .literal constant => exact .amounts (.literal constant)
  | .name other =>
      rw [substitute]
      split
      · rename_i same
        exact .amounts (.name (same ▸ known))
      · rename_i kept
        exact .name kept
  | .unary symbol operand => exact .unary symbol (reduces_substitute known operand)
  | .binary symbol left right => exact .binary symbol (reduces_substitute known left) (reduces_substitute known right)
  | .shortCircuit symbol left right =>
      exact .shortCircuit symbol (reduces_substitute known left) (reduces_substitute known right)
  | .conditional condition yes no =>
      exact .conditional (reduces_substitute known condition) (reduces_substitute known yes) (reduces_substitute known no)
  | .assign target value => exact .assign target (reduces_substitute known value)
  | .assignMember object key value =>
      exact .assignMember key (reduces_substitute known object) (reduces_substitute known value)
  | .define function parameters body => exact .define function parameters (reduces_substitute known body)
  | .call callee arguments => exact .call (reduces_substitute known callee) (reduces_substituteEach known arguments)
  | .member object key => exact .member key (reduces_substitute known object)
  | .array items => exact .array (reduces_substituteEach known items)
  | .statement body => exact .statement (reduces_substitute known body)
  | .sequence first rest => exact .sequence (reduces_substitute known first) (reduces_substitute known rest)

theorem reduces_substituteEach (known : facts.name word value) (terms : List Term) :
    ReducesEach facts (· ≠ word) terms (substituteEach word (.literal value) terms) := by
  match terms with
  | [] => exact .nil
  | term :: rest => exact .cons (reduces_substitute known term) (reduces_substituteEach known rest)

end

end Term

/-- The passes that put a value in the place of a name. -/
inductive Pass where
  | substitution
  | simplification

/-- What a pass may make of a program. Simplification works out what it can in some state with the standard
operators. -/
def Pass.Makes (pass : Pass) (dialect : Nat) (word : Text) (value : Value) (program result : Program) : Prop :=
  match pass with
  | .substitution => result = program.substitute word [.literal value]
  | .simplification => ∃ depth state after, (state.dialect dialect).Operates ∧
      program.simplify (perform depth) dialect [(.text word, value)] state = some (.ok result, after)

/-- Both passes put the value in the place of every reading of the name. -/
theorem Pass.Makes.reduces {pass : Pass} {dialect : Nat} {word : Text} {value : Value} {term : Term}
    {result : Program} (makes : pass.Makes dialect word value term.code result)
    (scalar : value.isScalar = true) :
    ∃ other, term.Reduces (knownFacts [(.text word, value)]) (· ≠ word) other ∧ result = other.code := by
  have held : named [(.text word, value)] word = some value := by
    rw [named_cons]
    exact if_pos (beq_self_eq_true word)
  cases pass with
  | substitution =>
      exact ⟨_, Term.reduces_substitute held term, makes.trans (Term.code_substitute word (.literal value) term).symm⟩
  | simplification =>
      obtain ⟨depth, state, after, operates, found⟩ := makes
      refine Simplification.reduces_simplify (Simplification.learns_known depth dialect _) ?_ operates found
      rintro state name - unknown rfl
      rw [Simplification.known?, Heap.lookup_text, held] at unknown
      simp [Value.isCallable_scalar scalar] at unknown

/-- A context without bindings, and no tables yet. -/
def bareContext : State := { heap := { maps := #[[]] } }

end Formula
