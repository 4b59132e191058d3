import Formula.Proofs.Derivation

/-!
What the parser makes of texts, of the names of operators, of word operators, and of members, indices, calls,
lists and assignments: more rules of derivation, one for each way that a step can go.
-/

namespace Formula

namespace Grammar

variable {dialect : Dialect} {tokens between rest : Tokens} {term operand : Term} {symbol : Text} {position : Nat}

/-- Whether an operator is a sign, which is never a value. -/
def isSign (symbol : Text) : Prop := symbol = Text.ofString "-" ∨ symbol = Text.ofString "+"

theorem derives_text {content : Text} (whole : rest.Whole) :
    Derives dialect .atom (.cons ⟨.text content, position⟩ rest) (.literal (.text content)) rest := by
  refine .of_step (by simp [Tokens.size]) fun depth _ => ?_
  have whole : settle rest = pure rest := whole
  simp [step, readAtom, whole]

/-! Operators that are words, before an operand or as values. -/

theorem accept_prefix (known : dialect.isPrefixOperator symbol = true) (whole : tokens.Whole) :
    accept (isPrefixOperator dialect) (.cons ⟨.operator symbol, position⟩ tokens) =
      pure (some (⟨.operator symbol, position⟩, tokens)) :=
  accept_some (by simp [isPrefixOperator, prefixSymbol?, known]) whole

theorem derives_operatorName (known : dialect.isPrefixOperator symbol = true) (other : ¬isSign symbol)
    (whole : rest.Whole) (ends : endsOperand rest.head.lexeme = true) :
    Derives dialect .factor (.cons ⟨.operator symbol, position⟩ rest) (.name symbol) rest := by
  have closed : isOpenParenthesis rest.head.lexeme = false := by
    cases found : rest.head.lexeme with
    | openParenthesis =>
        rw [found] at ends
        cases ends
    | _ => rfl
  have atom : Derives dialect .atom (.cons ⟨.operator symbol, position⟩ rest) (.name symbol) rest := by
    refine .of_step (by simp [Tokens.size]) fun depth _ => ?_
    have whole : settle rest = pure rest := whole
    simp [step, readAtom, known, whole]
  refine .of_step atom.shorter fun depth enough => ?_
  simp only [Goal.rank] at enough
  have read := atom.result depth (by simp only [Goal.rank]; omega)
  rw [isSign, not_or] at other
  simp [step, readFactor, accept_prefix known whole, symbolOf, other, closed, ends, read]

theorem derives_prefix (known : dialect.isPrefixOperator symbol = true) (whole : tokens.Whole)
    (closed : isOpenParenthesis tokens.head.lexeme = false) (goesOn : endsOperand tokens.head.lexeme = false)
    (factor : Derives dialect .factor tokens operand rest) :
    Derives dialect .factor (.cons ⟨.operator symbol, position⟩ tokens) (.unary symbol operand) rest := by
  have shorter := factor.shorter
  refine .of_step (by simp only [Tokens.size]; omega) fun depth enough => ?_
  simp only [Goal.rank, Tokens.size] at enough
  have read := factor.result depth (by simp only [Goal.rank]; omega)
  simp [step, readFactor, accept_prefix known whole, symbolOf, closed, goesOn, read]

/-- Before a parenthesis a word operator takes what stands in it, and powers come after that. -/
theorem derives_prefixOpen (known : dialect.isPrefixOperator symbol = true) (other : ¬isSign symbol)
    (whole : tokens.Whole) (opens : isOpenParenthesis tokens.head.lexeme = true)
    (power : Derives dialect .power (.cons ⟨.operator symbol, position⟩ tokens) term rest) :
    Derives dialect .factor (.cons ⟨.operator symbol, position⟩ tokens) term rest := by
  refine .of_step power.shorter fun depth enough => ?_
  simp only [Goal.rank] at enough
  have read := power.result depth (by simp only [Goal.rank]; omega)
  rw [isSign, not_or] at other
  simp [step, readFactor, accept_prefix known whole, symbolOf, other, opens, read]

theorem derives_applied (known : dialect.isPrefixOperator symbol = true) (whole : tokens.Whole)
    (atom : Derives dialect .atom tokens operand rest) :
    Derives dialect .application (.cons ⟨.operator symbol, position⟩ tokens) (.unary symbol operand) rest := by
  have shorter := atom.shorter
  refine .of_step (by simp only [Tokens.size]; omega) fun depth enough => ?_
  simp only [Goal.rank, Tokens.size] at enough
  have read := atom.result depth (by simp only [Goal.rank]; omega)
  simp [step, accept_prefix known whole, symbolOf, read]

/-! Members and indices. -/

variable {object index callee item target value : Term} {lexeme : Lexeme} {place closing : Nat}

theorem derives_memberStep {key : Text} (allowed : dialect.options.memberAccess = true)
    (named : memberName? lexeme = some key) (whole : tokens.Whole)
    (steps : Derives dialect (.steps (.member object key)) tokens term rest) :
    Derives dialect (.steps object)
      (.cons ⟨.operator (Text.ofString "."), place⟩ (.cons ⟨lexeme, position⟩ tokens)) term rest := by
  have shorter := steps.shorter
  refine .of_step (by simp only [Tokens.size]; omega) fun depth enough => ?_
  simp only [Goal.rank, Tokens.size] at enough
  have read := steps.result depth (by simp only [Goal.rank]; omega)
  have point : accept (isOperator ".") (.cons ⟨.operator (Text.ofString "."), place⟩ (.cons ⟨lexeme, position⟩ tokens)) =
      pure (some (_, .cons ⟨lexeme, position⟩ tokens)) := accept_some rfl (Tokens.whole_cons _ _)
  have member : accept (fun lexeme => (memberName? lexeme).isSome) (.cons ⟨lexeme, position⟩ tokens) =
      pure (some (⟨lexeme, position⟩, tokens)) := accept_some (by simp [named]) whole
  simp [step, readSteps, point, allowed, member, named, read]

theorem derives_indexStep (allowed : dialect.enables Term.indexSymbol = true) (whole : tokens.Whole)
    (wholeAfter : between.Whole)
    (expression : Derives dialect .expression tokens index (.cons ⟨.closeBracket, closing⟩ between))
    (steps : Derives dialect (.steps (.binary Term.indexSymbol object index)) between term rest) :
    Derives dialect (.steps object) (.cons ⟨.openBracket, position⟩ tokens) term rest := by
  have shorter := expression.shorter
  have shorterSteps := steps.shorter
  simp only [Tokens.size] at shorter
  refine .of_step (by simp only [Tokens.size]; omega) fun depth enough => ?_
  simp only [Goal.rank, Tokens.size] at enough
  have read := expression.result depth (by simp only [Goal.rank]; omega)
  have readSteps := steps.result depth (by simp only [Goal.rank]; omega)
  have noPoint : accept (isOperator ".") (.cons ⟨.openBracket, position⟩ tokens) = pure none := accept_none rfl
  have opens : accept isOpenBracket (.cons ⟨.openBracket, position⟩ tokens) = pure (some (_, tokens)) :=
    accept_some rfl whole
  have closes : expect (Text.ofString "]") isCloseBracket (.cons ⟨.closeBracket, closing⟩ between) = pure between :=
    expect_some rfl wholeAfter
  simp [step, Grammar.readSteps, noPoint, opens, allowed, read, closes, readSteps]

/-! Lists of items. -/

variable {shape : ListShape} {done : List Term}

theorem derives_lastItem (whole : rest.Whole)
    (expression : Derives dialect .expression tokens item (.cons ⟨shape.closer, closing⟩ rest)) :
    Derives dialect (.items shape done) tokens (shape.build (done ++ [item])) rest := by
  have shorter := expression.shorter
  simp only [Tokens.size] at shorter
  refine .of_step (by omega) fun depth enough => ?_
  simp only [Goal.rank] at enough
  have read := expression.result depth (by simp only [Goal.rank]; omega)
  have noComma : accept isComma (.cons ⟨shape.closer, closing⟩ rest) = pure none :=
    accept_none (by cases shape <;> rfl)
  have closes (what : Text) : expect what (isCloser shape) (.cons ⟨shape.closer, closing⟩ rest) = pure rest :=
    expect_some (by cases shape <;> rfl) whole
  simp [step, read, noComma, closes]

theorem derives_nextItem (whole : between.Whole)
    (expression : Derives dialect .expression tokens item (.cons ⟨.comma, position⟩ between))
    (items : Derives dialect (.items shape (done ++ [item])) between term rest) :
    Derives dialect (.items shape done) tokens term rest := by
  have shorter := expression.shorter
  have shorterItems := items.shorter
  simp only [Tokens.size] at shorter
  refine .of_step (by omega) fun depth enough => ?_
  simp only [Goal.rank] at enough
  have read := expression.result depth (by simp only [Goal.rank]; omega)
  have readItems := items.result depth (by simp only [Goal.rank]; omega)
  have comma : accept isComma (.cons ⟨.comma, position⟩ between) = pure (some (_, between)) := accept_some rfl whole
  simp [step, read, comma, readItems]

theorem derives_emptyArray (whole : rest.Whole) :
    Derives dialect .atom (.cons ⟨.openBracket, position⟩ (.cons ⟨.closeBracket, closing⟩ rest)) (.array []) rest := by
  refine .of_step (by simp only [Tokens.size]; omega) fun depth _ => ?_
  have settled : settle (.cons ⟨.closeBracket, closing⟩ rest) = pure (.cons ⟨.closeBracket, closing⟩ rest) := rfl
  have closes : accept isCloseBracket (.cons ⟨.closeBracket, closing⟩ rest) = pure (some (_, rest)) :=
    accept_some rfl whole
  simp [step, readAtom, settled, closes]

theorem derives_array (whole : tokens.Whole) (filled : isCloseBracket tokens.head.lexeme = false)
    (items : Derives dialect (.items .array []) tokens term rest) :
    Derives dialect .atom (.cons ⟨.openBracket, position⟩ tokens) term rest := by
  have shorter := items.shorter
  refine .of_step (by simp only [Tokens.size]; omega) fun depth enough => ?_
  simp only [Goal.rank, Tokens.size] at enough
  have read := items.result depth (by simp only [Goal.rank]; omega)
  have settled : settle tokens = pure tokens := whole
  simp [step, readAtom, settled, accept_none filled, read]

theorem derives_emptyCall (whole : tokens.Whole)
    (calls : Derives dialect (.calls (.call callee [])) tokens term rest) :
    Derives dialect (.calls callee)
      (.cons ⟨.openParenthesis, position⟩ (.cons ⟨.closeParenthesis, closing⟩ tokens)) term rest := by
  have shorter := calls.shorter
  refine .of_step (by simp only [Tokens.size]; omega) fun depth enough => ?_
  simp only [Goal.rank, Tokens.size] at enough
  have read := calls.result depth (by simp only [Goal.rank]; omega)
  have opens : accept isOpenParenthesis
      (.cons ⟨.openParenthesis, position⟩ (.cons ⟨.closeParenthesis, closing⟩ tokens)) =
        pure (some (_, .cons ⟨.closeParenthesis, closing⟩ tokens)) := accept_some rfl (Tokens.whole_cons _ _)
  have closes : accept isCloseParenthesis (.cons ⟨.closeParenthesis, closing⟩ tokens) = pure (some (_, tokens)) :=
    accept_some rfl whole
  simp [step, opens, closes, read]

theorem derives_call {call : Term} (whole : tokens.Whole)
    (filled : isCloseParenthesis tokens.head.lexeme = false)
    (items : Derives dialect (.items (.call callee) []) tokens call between)
    (calls : Derives dialect (.calls call) between term rest) :
    Derives dialect (.calls callee) (.cons ⟨.openParenthesis, position⟩ tokens) term rest := by
  have shorter := items.shorter
  have shorterCalls := calls.shorter
  refine .of_step (by simp only [Tokens.size]; omega) fun depth enough => ?_
  simp only [Goal.rank, Tokens.size] at enough
  have read := items.result depth (by simp only [Goal.rank]; omega)
  have readCalls := calls.result depth (by simp only [Goal.rank]; omega)
  have opens : accept isOpenParenthesis (.cons ⟨.openParenthesis, position⟩ tokens) = pure (some (_, tokens)) :=
    accept_some rfl whole
  simp [step, opens, accept_none filled, read, readCalls]

/-! Assignments. -/

/-- A term that may stand before the sign of an assignment, with what becomes of it and of the value. -/
inductive Assignable (dialect : Dialect) : Term → (Term → Term) → Prop
  | name (name : Text) : Assignable dialect (.name name) (.assign name)
  | member (object : Term) (key : Text) : Assignable dialect (.member object key) (.assignMember object key)
  | definition {callee : Term} {arguments : List Term} {name : Text} {parameters : List Text}
      (allowed : dialect.enables (Text.ofString "()=") = true)
      (signature : signature? callee arguments = some (name, parameters)) :
      Assignable dialect (.call callee arguments) (.define name parameters)

theorem derives_assign {build : Term → Term} (assignable : Assignable dialect target build) (whole : between.Whole)
    (conditional : Derives dialect .conditional tokens target
      (.cons ⟨.operator (Text.ofString "="), position⟩ between))
    (assignment : Derives dialect .assignment between value rest) :
    Derives dialect .assignment tokens (build value) rest := by
  have shorter := conditional.shorter
  have shorterValue := assignment.shorter
  simp only [Tokens.size] at shorter
  refine .of_step (by omega) fun depth enough => ?_
  simp only [Goal.rank] at enough
  have read := conditional.result depth (by simp only [Goal.rank]; omega)
  have readValue := assignment.result depth (by simp only [Goal.rank]; omega)
  have taken : accept (isOperator "=") (.cons ⟨.operator (Text.ofString "="), position⟩ between) =
      pure (some (_, between)) := accept_some rfl whole
  cases assignable with
  | name name => simp [step, read, taken, assignTo, readValue]
  | member object key => simp [step, read, taken, assignTo, readValue]
  | definition allowed signature => simp [step, read, taken, assignTo, allowed, signature, readValue]

end Grammar

end Formula
