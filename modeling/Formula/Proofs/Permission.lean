import Formula.Proofs.Contents

/-!
Features that are switched off never reach a program: the operators of a program, its arrays, definitions,
assignments and members are all switched on in the dialect that read it.
-/

namespace Formula

/-- Whether a feature is switched on: unless it is listed as off. -/
def Options.isOn (options : Options) (feature : String) : Prop :=
  options.features.lookup (Text.ofString feature) ≠ some false

/-- Whether the features of a dialect allow an instruction. -/
def Instruction.Permitted (dialect : Dialect) : Instruction → Prop
  | .unary symbol => dialect.enables symbol = true
  | .binary symbol => dialect.enables symbol = true ∧ (symbol = Term.indexSymbol → dialect.options.isOn "array")
  | .ternary symbol => dialect.enables symbol = true ∧
      (symbol = Term.assignSymbol → dialect.options.memberAccess = true)
  | .array _ => dialect.options.isOn "array"
  | .define _ => dialect.options.isOn "fndef" ∧ dialect.options.isOn "assignment"
  | .target _ => dialect.options.isOn "assignment"
  | .member _ => dialect.options.memberAccess = true
  | _ => True

variable {dialect : Dialect}

theorem isOn_of_enables {symbol : Text} {feature : String} (enabled : dialect.enables symbol = true)
    (belongs : featureOf symbol = Text.ofString feature) : dialect.options.isOn feature := by
  intro off
  rw [Dialect.enables, belongs, off] at enabled
  cases enabled

/-- An operator that was read is switched on. -/
theorem Lexeme.Possible.enabled {symbol : Text} (possible : Lexeme.Possible dialect (.operator symbol)) :
    dialect.enables symbol = true := by
  cases possible with
  | operator enabled => exact enabled

/-- A bracket that was read is an operator that is switched on. -/
theorem Lexeme.Possible.indexes (possible : Lexeme.Possible dialect .openBracket) :
    dialect.enables Term.indexSymbol = true := by
  cases possible with
  | openBracket enabled => exact enabled

theorem isOn_array (enabled : dialect.enables Term.indexSymbol = true) : dialect.options.isOn "array" :=
  isOn_of_enables enabled rfl

theorem isOn_assignment (enabled : dialect.enables Term.assignSymbol = true) :
    dialect.options.isOn "assignment" :=
  isOn_of_enables enabled rfl

/-- What the grammar emits for tokens of the dialect is permitted. -/
theorem emits_permitted : Emits dialect (·.Possible dialect) (·.Permitted dialect) where
  name _ := trivial
  number _ _ := trivial
  text _ := trivial
  unary _ possible := possible.enabled
  binary _ possible := ⟨possible.enabled, fun indexes => isOn_array (indexes ▸ possible.enabled)⟩
  index possible := ⟨possible.indexes, fun _ => isOn_array possible.indexes⟩
  conditional possible := ⟨possible.enabled, fun same => absurd same (by decide)⟩
  target possible _ := isOn_assignment possible.enabled
  assignMember _ possible member := ⟨possible.enabled, fun _ => member⟩
  define _ possible enabled := ⟨isOn_of_enables enabled rfl, isOn_assignment possible.enabled⟩
  call _ := trivial
  member _ allowed := allowed
  array _ possible := isOn_array possible.indexes
  discard := trivial

/-- Every instruction of a program, at every depth, is one that the features of its dialect allow. -/
theorem program_permitted {source : Text} {term : Term} (parsed : parse dialect source = .ok term) :
    ∀ instruction ∈ term.code.contents, instruction.Permitted dialect :=
  good_parse (closed_emits emits_permitted) (Tokens.all_ofText (fun _ possible => possible) source) parsed

/-- A definition and an assignment to a member are read where comparisons are switched off. -/
theorem program_permitted_of_definition :
    ∃ term, parse (.standard { features := [(Text.ofString "comparison", false)] })
        (Text.ofString "f(x) = [-x.a, 1]; m.k = f(2) ? 3 : m[0]") = .ok term ∧
      ∀ instruction ∈ term.code.contents,
        instruction.Permitted (.standard { features := [(Text.ofString "comparison", false)] }) := by
  obtain ⟨term, parsed⟩ := parse_isOk (by decide +kernel :
    (reading (.standard { features := [(Text.ofString "comparison", false)] })
      (Text.ofString "f(x) = [-x.a, 1]; m.k = f(2) ? 3 : m[0]")).isOk = true)
  exact ⟨term, parsed, program_permitted parsed⟩

end Formula
