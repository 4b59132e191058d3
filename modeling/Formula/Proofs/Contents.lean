import Formula.Proofs.Lexing
import Formula.Proofs.Parsing
import Formula.Proofs.Scalar

/-!
The instructions of a program at every depth. The literals of a source text are scalars.
-/

namespace Formula

mutual

/-- An instruction, or what is in the program that it holds. -/
def Instruction.contents : Instruction → List Instruction
  | .nested program | .suspended program => allContents program
  | instruction => [instruction]

def allContents : List Instruction → List Instruction
  | [] => []
  | instruction :: rest => instruction.contents ++ allContents rest

end

/-- The instructions of a program, at every depth, that hold no program themselves. -/
def Program.contents (program : Program) : List Instruction := allContents program

namespace Program

theorem contents_cons (instruction : Instruction) (rest : Program) :
    contents (instruction :: rest) = instruction.contents ++ contents rest := rfl

theorem contents_nested (inner : Program) : (Instruction.nested inner).contents = inner.contents := rfl

theorem contents_append (left right : Program) :
    contents (left ++ right) = contents left ++ contents right := by
  induction left with
  | nil => rfl
  | cons instruction rest ih =>
      rw [List.cons_append, contents_cons, ih, contents_cons, List.append_assoc]

end Program

/-- Whether all instructions of a program have a property, at every depth. -/
def Program.Every (holds : Instruction → Prop) (program : Program) : Prop :=
  ∀ instruction ∈ program.contents, holds instruction

/-- Whether the literals of a program are scalars, at every depth. -/
def Program.Plain (program : Program) : Prop :=
  ∀ value, .literal value ∈ program.contents → value.isScalar = true

theorem mem_codeAll {terms : List Term} {instruction : Instruction}
    (member : instruction ∈ Program.contents (Term.codeAll terms)) :
    ∃ term ∈ terms, instruction ∈ term.code.contents := by
  induction terms with
  | nil => cases member
  | cons term rest ih =>
      rw [Term.codeAll, Program.contents_append, List.mem_append] at member
      rcases member with inside | later
      · exact ⟨term, List.mem_cons_self, inside⟩
      · obtain ⟨other, among, inside⟩ := ih later
        exact ⟨other, List.mem_cons_of_mem term among, inside⟩

namespace Program.Every

variable {holds : Instruction → Prop} {first second : Program}

theorem append (left : first.Every holds) (right : second.Every holds) : Program.Every holds (first ++ second) := by
  intro instruction member
  rw [Program.contents_append, List.mem_append] at member
  exact member.elim (left instruction) (right instruction)

theorem left (every : Program.Every holds (first ++ second)) : first.Every holds := by
  intro instruction member
  exact every instruction (by rw [Program.contents_append]; exact List.mem_append_left _ member)

theorem right (every : Program.Every holds (first ++ second)) : second.Every holds := by
  intro instruction member
  exact every instruction (by rw [Program.contents_append]; exact List.mem_append_right _ member)

theorem single {instruction : Instruction} (bare : instruction.contents = [instruction])
    (here : holds instruction) : Program.Every holds [instruction] := by
  intro other member
  rw [Program.contents_cons, bare] at member
  exact List.mem_singleton.mp member ▸ here

theorem nested (inner : first.Every holds) : Program.Every holds [.nested first] := by
  intro instruction member
  rw [Program.contents_cons, Program.contents_nested, List.mem_append] at member
  exact member.elim (inner instruction) fun later => by cases later

theorem all {terms : List Term} (every : ∀ term ∈ terms, term.code.Every holds) :
    Program.Every holds (Term.codeAll terms) := by
  intro instruction member
  obtain ⟨term, among, inside⟩ := mem_codeAll member
  exact every term among instruction inside

theorem targets (names : List Text) (every : ∀ name, holds (.target name)) :
    Program.Every holds (names.map .target) := by
  induction names with
  | nil => exact fun _ member => by cases member
  | cons name rest ih => exact (single rfl (every name)).append ih

end Program.Every

/-- Properties of instructions that hold of whatever the grammar of a dialect emits for tokens with a
property. -/
structure Emits (dialect : Dialect) (lexemes : Lexeme → Prop) (holds : Instruction → Prop) : Prop where
  name : ∀ name, holds (.name name)
  number : ∀ value, lexemes (.number value) → holds (.literal value)
  text : ∀ content, holds (.literal (.text content))
  unary : ∀ symbol, lexemes (.operator symbol) → holds (.unary symbol)
  binary : ∀ symbol, lexemes (.operator symbol) → holds (.binary symbol)
  index : lexemes .openBracket → holds (.binary Term.indexSymbol)
  conditional : lexemes (.operator Term.conditionSymbol) → holds (.ternary Term.conditionSymbol)
  target : lexemes (.operator Term.assignSymbol) → ∀ name, holds (.target name)
  assignMember : ∀ key, lexemes (.operator Term.assignSymbol) → holds (.member key) →
    holds (.ternary Term.assignSymbol)
  define : ∀ count, lexemes (.operator Term.assignSymbol) → dialect.enables (Text.ofString "()=") = true →
    holds (.define count)
  call : ∀ count, holds (.call count)
  member : ∀ key, dialect.options.memberAccess = true → holds (.member key)
  array : ∀ count, lexemes .openBracket → holds (.array count)
  discard : holds .discard

open Program.Every in
/-- The grammar emits nothing but instructions with such a property. -/
theorem closed_emits {dialect : Dialect} {lexemes : Lexeme → Prop} {holds : Instruction → Prop}
    (emits : Emits dialect lexemes holds) : Closed dialect lexemes fun term => term.code.Every holds where
  name word := single rfl (emits.name word)
  number value allowed := single rfl (emits.number value allowed)
  text content := single rfl (emits.text content)
  unary symbol _ allowed operand := operand.append (single rfl (emits.unary symbol allowed))
  binary symbol _ _ _ allowed left right := (left.append right).append (single rfl (emits.binary symbol allowed))
  index _ _ allowed object index := (object.append index).append (single rfl (emits.index allowed))
  shortCircuit symbol _ _ _ allowed left right :=
    left.append ((nested right).append (single rfl (emits.binary symbol allowed)))
  conditional _ _ _ allowed condition yes no := condition.append
    ((nested yes).append ((nested no).append (single rfl (emits.conditional allowed))))
  assign target _ allowed value := (single rfl (emits.target allowed target)).append
    ((nested value).append (single rfl (emits.binary _ allowed)))
  assignMember _ key _ allowed object value :=
    object.left.append ((single rfl (emits.target allowed key)).append ((nested value).append
      (single rfl (emits.assignMember key allowed (object.right _ List.mem_cons_self)))))
  define function parameters _ allowed enabled body :=
    (targets (function :: parameters) (emits.target allowed)).append
      ((nested body).append (single rfl (emits.define _ allowed enabled)))
  call _ _ callee arguments := (callee.append (all arguments)).append (single rfl (emits.call _))
  member _ key allowed object := object.append (single rfl (emits.member key allowed))
  array _ allowed items := (all items).append (single rfl (emits.array _ allowed))
  statement _ body := nested body
  sequence _ _ first rest := nested (first.append ((single rfl emits.discard).append rest))

namespace Program.Plain

variable {first second : Program}

theorem iff_every {program : Program} :
    program.Plain ↔ program.Every fun instruction => ∀ value, instruction = .literal value → value.isScalar = true :=
  ⟨fun plain _ member value same => plain value (same ▸ member), fun every value member => every _ member value rfl⟩

theorem left (plain : Program.Plain (first ++ second)) : first.Plain :=
  iff_every.mpr (iff_every.mp plain).left

theorem right (plain : Program.Plain (first ++ second)) : second.Plain :=
  iff_every.mpr (iff_every.mp plain).right

end Program.Plain

/-- The literals of a text are scalars if the constants of the dialect are. -/
theorem plain_parse {dialect : Dialect} {source : Text} {term : Term}
    (constants : ∀ entry ∈ dialect.constants, entry.2.isScalar = true)
    (found : parse dialect source = .ok term) : term.code.Plain := by
  have emits : Emits dialect (·.Possible dialect)
      fun instruction => ∀ value, instruction = .literal value → value.isScalar = true := by
    constructor
    case number =>
      rintro _ possible value ⟨⟩
      cases possible with
      | integer number => rfl
      | float number => rfl
      | constant held => exact constants _ (Table.mem_of_get? held)
    case text =>
      rintro _ _ ⟨⟩
      rfl
    all_goals nofun
  exact Program.Plain.iff_every.mpr
    (good_parse (closed_emits emits) (Tokens.all_ofText (fun _ possible => possible) source) found)

theorem scalar_standardConstants : ∀ entry ∈ standardConstants, entry.2.isScalar = true := by
  simp [standardConstants, Value.isScalar]

/-- The literals of a source text are scalars. -/
theorem parse_plain {options : Options} {source : Text} {term : Term}
    (found : parse (.standard options) source = .ok term) : term.code.Plain :=
  plain_parse scalar_standardConstants found

/-- A text that is parsed holds no values but scalars, if all constants are. -/
theorem parse_literals {parser : Dialect} {source : Text} {term : Term}
    (constants : parser.constants = standardConstants) (parsed : parse parser source = .ok term) {value : Value}
    (member : .literal value ∈ term.code.contents) : value.isScalar = true :=
  plain_parse (constants ▸ scalar_standardConstants) parsed value member

end Formula
