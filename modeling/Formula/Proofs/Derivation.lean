import Formula.Grammar

/-!
Derivations: what the parser reads towards each goal, one rule for each way that a step can go. The
depth of the recursion is measured by the goal and by the tokens that are left, so that a derivation
holds at every depth that is enough.
-/

namespace Formula

namespace Level

/-- The place of a level among the levels, from the tightest. -/
@[simp]
def height : Level → Nat
  | .product => 0
  | .sum => 1
  | .comparison => 2
  | .conjunction => 3
  | .disjunction => 4

end Level

namespace Goal

/-- How many goals lead to one another, at most, before a token is taken. -/
@[simp]
def rank : Goal → Nat
  | .atom | .steps _ | .calls _ | .factorials _ | .chainRest _ _ => 1
  | .access => 2
  | .application => 3
  | .suffixed => 4
  | .power => 5
  | .factor => 6
  | .chain level => 7 + level.height
  | .conditional => 12
  | .assignment => 13
  | .expression => 14
  | .items _ _ => 15

theorem rank_operand (level : Level) : level.operand.rank = 6 + level.height := by
  cases level <;> rfl

end Goal

namespace Tokens

/-- Whether tokens are there, or the end of the text. -/
def Whole (tokens : Tokens) : Prop := Grammar.settle tokens = pure tokens

theorem whole_finish (position : Nat) : (finish position).Whole := rfl

theorem whole_cons (token : Token) (rest : Tokens) : (cons token rest).Whole := rfl

/-- Tokens before others. -/
def lay (first : List Token) (rest : Tokens) : Tokens := first.foldr .cons rest

theorem lay_append (first others : List Token) (rest : Tokens) :
    lay (first ++ others) rest = lay first (lay others rest) := List.foldr_append

theorem lay_cons (token : Token) (others : List Token) (rest : Tokens) :
    lay (token :: others) rest = .cons token (lay others rest) := rfl

theorem whole_lay {rest : Tokens} (first : List Token) (whole : rest.Whole) : (lay first rest).Whole := by
  cases first with
  | nil => exact whole
  | cons token first => rfl

end Tokens

namespace Grammar

/-- The parser reads a term towards a goal and leaves some tokens, at every depth that is enough. -/
structure Derives (dialect : Dialect) (goal : Goal) (tokens : Tokens) (term : Term) (rest : Tokens) :
    Prop where
  shorter : rest.size ≤ tokens.size
  result : ∀ depth, goal.rank + 16 * tokens.size ≤ depth →
    read dialect depth goal tokens = pure (term, rest)

theorem accept_some {test : Lexeme → Bool} {token : Token} {rest : Tokens}
    (passes : test token.lexeme = true) (whole : rest.Whole) :
    accept test (.cons token rest) = pure (some (token, rest)) := by
  have whole : settle rest = pure rest := whole
  rw [accept, if_pos passes, whole, pure_bind]

theorem accept_none {test : Lexeme → Bool} {tokens : Tokens}
    (fails : test tokens.head.lexeme = false) : accept test tokens = pure none := by
  cases tokens with
  | cons token rest =>
      have fails : test token.lexeme = false := fails
      simp [accept, fails]
  | _ => rfl

theorem expect_some {test : Lexeme → Bool} {what : Text} {token : Token} {rest : Tokens}
    (passes : test token.lexeme = true) (whole : rest.Whole) :
    expect what test (.cons token rest) = pure rest := by
  rw [expect, accept_some passes whole, pure_bind]

variable {dialect : Dialect} {tokens between rest last : Tokens} {term other : Term}

/-- What one step of the parser derives from what it needs. -/
theorem Derives.of_step {goal : Goal} (shorter : rest.size ≤ tokens.size)
    (result : ∀ depth, goal.rank + 16 * tokens.size ≤ depth + 1 →
      step dialect (read dialect depth) goal tokens = pure (term, rest)) :
    Derives dialect goal tokens term rest := by
  refine ⟨shorter, fun depth enough => ?_⟩
  cases depth with
  | zero => cases goal <;> simp [Goal.rank] at enough
  | succ depth => exact result depth enough

/-! Names, literals and parentheses. -/

theorem derives_name {word : Text} {position : Nat} (whole : rest.Whole) :
    Derives dialect .atom (.cons ⟨.name word, position⟩ rest) (.name word) rest := by
  refine .of_step (by simp [Tokens.size]) fun depth _ => ?_
  have whole : settle rest = pure rest := whole
  simp [step, readAtom, whole]

theorem derives_number {value : Value} {position : Nat} (whole : rest.Whole) :
    Derives dialect .atom (.cons ⟨.number value, position⟩ rest) (.literal value) rest := by
  refine .of_step (by simp [Tokens.size]) fun depth _ => ?_
  have whole : settle rest = pure rest := whole
  simp [step, readAtom, whole]

theorem derives_enclosed {opening closing : Nat} (wholeInner : tokens.Whole) (whole : rest.Whole)
    (inner : Derives dialect .expression tokens term (.cons ⟨.closeParenthesis, closing⟩ rest)) :
    Derives dialect .atom (.cons ⟨.openParenthesis, opening⟩ tokens) term rest := by
  have shorter := inner.shorter
  simp only [Tokens.size] at shorter
  refine .of_step (by simp only [Tokens.size]; omega) fun depth enough => ?_
  simp only [Goal.rank, Tokens.size] at enough
  have read := inner.result depth (by simp only [Goal.rank]; omega)
  have wholeInner : settle tokens = pure tokens := wholeInner
  have closes : expect (Text.ofString ")") isCloseParenthesis
      (.cons ⟨.closeParenthesis, closing⟩ rest) = pure rest := expect_some rfl whole
  simp [step, readAtom, wholeInner, read, closes]

/-! Operands and what may stand after them. -/

theorem derives_access {object : Term} (atom : Derives dialect .atom tokens object between)
    (steps : Derives dialect (.steps object) between term rest) :
    Derives dialect .access tokens term rest := by
  have shorter := atom.shorter
  have shorterSteps := steps.shorter
  refine .of_step (by omega) fun depth enough => ?_
  simp only [Goal.rank] at enough
  have read := atom.result depth (by simp only [Goal.rank]; omega)
  have readSteps := steps.result depth (by simp only [Goal.rank]; omega)
  simp [step, read, readSteps]

theorem derives_noStep {object : Term} (noPoint : isOperator "." tokens.head.lexeme = false)
    (noBracket : isOpenBracket tokens.head.lexeme = false) :
    Derives dialect (.steps object) tokens object tokens := by
  refine .of_step (Nat.le_refl _) fun depth _ => ?_
  simp [step, readSteps, accept_none noPoint, accept_none noBracket]

theorem derives_noCall {callee : Term} (fails : isOpenParenthesis tokens.head.lexeme = false) :
    Derives dialect (.calls callee) tokens callee tokens := by
  refine .of_step (Nat.le_refl _) fun depth _ => ?_
  simp [step, accept_none fails]

theorem derives_application {callee : Term}
    (plain : isPrefixOperator dialect tokens.head.lexeme = false)
    (access : Derives dialect .access tokens callee between)
    (calls : Derives dialect (.calls callee) between term rest) :
    Derives dialect .application tokens term rest := by
  have shorter := access.shorter
  have shorterCalls := calls.shorter
  refine .of_step (by omega) fun depth enough => ?_
  simp only [Goal.rank] at enough
  have read := access.result depth (by simp only [Goal.rank]; omega)
  have readCalls := calls.result depth (by simp only [Goal.rank]; omega)
  simp [step, accept_none plain, read, readCalls]

theorem derives_suffixed {operand : Term}
    (application : Derives dialect .application tokens operand between)
    (factorials : Derives dialect (.factorials operand) between term rest) :
    Derives dialect .suffixed tokens term rest := by
  have shorter := application.shorter
  have shorterFactorials := factorials.shorter
  refine .of_step (by omega) fun depth enough => ?_
  simp only [Goal.rank] at enough
  have read := application.result depth (by simp only [Goal.rank]; omega)
  have readFactorials := factorials.result depth (by simp only [Goal.rank]; omega)
  simp [step, read, readFactorials]

theorem derives_noFactorial {operand : Term} (fails : isOperator "!" tokens.head.lexeme = false) :
    Derives dialect (.factorials operand) tokens operand tokens := by
  refine .of_step (Nat.le_refl _) fun depth _ => ?_
  simp [step, accept_none fails]

theorem derives_factorial {operand : Term} {position : Nat} (whole : tokens.Whole)
    (factorials : Derives dialect (.factorials (.unary (Text.ofString "!") operand)) tokens term rest) :
    Derives dialect (.factorials operand)
      (.cons ⟨.operator (Text.ofString "!"), position⟩ tokens) term rest := by
  have shorter := factorials.shorter
  refine .of_step (by simp only [Tokens.size]; omega) fun depth enough => ?_
  simp only [Goal.rank, Tokens.size] at enough
  have read := factorials.result depth (by simp only [Goal.rank]; omega)
  have taken : accept (isOperator "!") (.cons ⟨.operator (Text.ofString "!"), position⟩ tokens) =
      pure (some (_, tokens)) := accept_some rfl whole
  simp [step, taken, read]

/-! Powers and signs. -/

theorem derives_noPower (fails : isOperator "^" rest.head.lexeme = false)
    (suffixed : Derives dialect .suffixed tokens term rest) :
    Derives dialect .power tokens term rest := by
  refine .of_step suffixed.shorter fun depth enough => ?_
  simp only [Goal.rank] at enough
  have read := suffixed.result depth (by simp only [Goal.rank]; omega)
  simp [step, read, accept_none fails]

theorem derives_power {base exponent : Term} {position : Nat} (whole : between.Whole)
    (suffixed : Derives dialect .suffixed tokens base
      (.cons ⟨.operator (Text.ofString "^"), position⟩ between))
    (factor : Derives dialect .factor between exponent rest) :
    Derives dialect .power tokens (.binary (Text.ofString "^") base exponent) rest := by
  have shorter := suffixed.shorter
  have shorterFactor := factor.shorter
  simp only [Tokens.size] at shorter
  refine .of_step (by omega) fun depth enough => ?_
  simp only [Goal.rank] at enough
  have read := suffixed.result depth (by simp only [Goal.rank]; omega)
  have readFactor := factor.result depth (by simp only [Goal.rank]; omega)
  have taken : accept (isOperator "^") (.cons ⟨.operator (Text.ofString "^"), position⟩ between) =
      pure (some (_, between)) := accept_some rfl whole
  simp [step, read, taken, readFactor]

theorem derives_plain (plain : isPrefixOperator dialect tokens.head.lexeme = false)
    (power : Derives dialect .power tokens term rest) : Derives dialect .factor tokens term rest := by
  refine .of_step power.shorter fun depth enough => ?_
  simp only [Goal.rank] at enough
  have read := power.result depth (by simp only [Goal.rank]; omega)
  simp [step, readFactor, accept_none plain, read]

theorem derives_sign {symbol : Text} {operand : Term} {position : Nat}
    (sign : symbol = Text.ofString "-" ∨ symbol = Text.ofString "+")
    (known : dialect.isPrefixOperator symbol = true) (whole : tokens.Whole)
    (factor : Derives dialect .factor tokens operand rest) :
    Derives dialect .factor (.cons ⟨.operator symbol, position⟩ tokens) (.unary symbol operand)
      rest := by
  have shorter := factor.shorter
  refine .of_step (by simp only [Tokens.size]; omega) fun depth enough => ?_
  simp only [Goal.rank, Tokens.size] at enough
  have read := factor.result depth (by simp only [Goal.rank]; omega)
  have taken : accept (isPrefixOperator dialect) (.cons ⟨.operator symbol, position⟩ tokens) =
      pure (some (⟨.operator symbol, position⟩, tokens)) :=
    accept_some (by simp [isPrefixOperator, prefixSymbol?, known]) whole
  have signed : (¬symbol = Text.ofString "-" ∧ ¬symbol = Text.ofString "+") = False := by
    rcases sign with rfl | rfl <;> simp
  simp [step, readFactor, taken, symbolOf, signed, read]

/-! Levels of operators. -/

variable {level : Level}

theorem derives_chain {left : Term} (operand : Derives dialect level.operand tokens left between)
    (others : Derives dialect (.chainRest level left) between term rest) :
    Derives dialect (.chain level) tokens term rest := by
  have shorter := operand.shorter
  have shorterOthers := others.shorter
  refine .of_step (by omega) fun depth enough => ?_
  simp only [Goal.rank] at enough
  have read := operand.result depth (by rw [Goal.rank_operand]; omega)
  have readOthers := others.result depth (by simp only [Goal.rank]; omega)
  simp [step, read, readOthers]

theorem derives_chainEnd {left : Term}
    (fails : (level.symbols.any fun symbol => tokens.head.lexeme.isOperator symbol) = false) :
    Derives dialect (.chainRest level left) tokens left tokens := by
  refine .of_step (Nat.le_refl _) fun depth _ => ?_
  have none : accept (fun lexeme => level.symbols.any (lexeme.isOperator ·)) tokens = pure none :=
    accept_none fails
  simp [step, none]

theorem derives_chainStep {symbol : Text} {left right : Term} {position : Nat}
    (listed : symbol ∈ level.symbols) (whole : tokens.Whole)
    (operand : Derives dialect level.operand tokens right between)
    (others : Derives dialect (.chainRest level (level.build symbol left right)) between term rest) :
    Derives dialect (.chainRest level left) (.cons ⟨.operator symbol, position⟩ tokens) term rest := by
  have shorter := operand.shorter
  have shorterOthers := others.shorter
  have height : level.height ≤ 4 := by cases level <;> decide
  refine .of_step (by simp only [Tokens.size]; omega) fun depth enough => ?_
  simp only [Goal.rank, Tokens.size] at enough
  have read := operand.result depth (by rw [Goal.rank_operand]; omega)
  have readOthers := others.result depth (by simp only [Goal.rank]; omega)
  have taken : accept (fun lexeme => level.symbols.any (lexeme.isOperator ·))
      (.cons ⟨.operator symbol, position⟩ tokens) =
        pure (some (⟨.operator symbol, position⟩, tokens)) :=
    accept_some (List.any_eq_true.mpr ⟨symbol, listed, by simp [Lexeme.isOperator]⟩) whole
  simp [step, taken, read, symbolOf, readOthers]

/-! Conditionals and whole expressions. -/

theorem derives_noCondition (fails : isOperator "?" rest.head.lexeme = false)
    (chain : Derives dialect (.chain .disjunction) tokens term rest) :
    Derives dialect .conditional tokens term rest := by
  refine .of_step chain.shorter fun depth enough => ?_
  simp only [Goal.rank] at enough
  have read := chain.result depth (by simp only [Goal.rank, Level.height]; omega)
  simp [step, read, accept_none fails]

theorem derives_condition {condition yes no : Term} {asked parted : Nat} {after : Tokens}
    (whole : between.Whole) (wholeAfter : after.Whole)
    (chain : Derives dialect (.chain .disjunction) tokens condition
      (.cons ⟨.operator (Text.ofString "?"), asked⟩ between))
    (first : Derives dialect .conditional between yes
      (.cons ⟨.operator (Text.ofString ":"), parted⟩ after))
    (second : Derives dialect .conditional after no rest) :
    Derives dialect .conditional tokens (.conditional condition yes no) rest := by
  have shorter := chain.shorter
  have shorterFirst := first.shorter
  have shorterSecond := second.shorter
  simp only [Tokens.size] at shorter shorterFirst
  refine .of_step (by omega) fun depth enough => ?_
  simp only [Goal.rank] at enough
  have read := chain.result depth (by simp only [Goal.rank, Level.height]; omega)
  have readFirst := first.result depth (by simp only [Goal.rank]; omega)
  have readSecond := second.result depth (by simp only [Goal.rank]; omega)
  have taken : accept (isOperator "?") (.cons ⟨.operator (Text.ofString "?"), asked⟩ between) =
      pure (some (_, between)) := accept_some rfl whole
  have expected : expect (Text.ofString ":") (isOperator ":")
      (.cons ⟨.operator (Text.ofString ":"), parted⟩ after) = pure after := expect_some rfl wholeAfter
  simp [step, read, taken, readFirst, expected, readSecond]

/-- What is no assignment. -/
theorem derives_assignment (noAssignment : isOperator "=" rest.head.lexeme = false)
    (conditional : Derives dialect .conditional tokens term rest) :
    Derives dialect .assignment tokens term rest := by
  refine .of_step conditional.shorter fun depth enough => ?_
  simp only [Goal.rank] at enough
  have read := conditional.result depth (by simp only [Goal.rank]; omega)
  simp [step, read, accept_none noAssignment]

/-- The last statement. -/
theorem derives_last (noStatement : isSemicolon rest.head.lexeme = false)
    (assignment : Derives dialect .assignment tokens term rest) :
    Derives dialect .expression tokens term rest := by
  refine .of_step assignment.shorter fun depth enough => ?_
  simp only [Goal.rank] at enough
  have read := assignment.result depth (by simp only [Goal.rank]; omega)
  simp [step, read, accept_none noStatement]

/-- A statement before others. -/
theorem derives_sequence {position : Nat} (whole : between.Whole)
    (goesOn : endsStatement between.head.lexeme = false)
    (assignment : Derives dialect .assignment tokens other (.cons ⟨.semicolon, position⟩ between))
    (expression : Derives dialect .expression between term rest) :
    Derives dialect .expression tokens (.sequence other term) rest := by
  have shorter := assignment.shorter
  have shorterRest := expression.shorter
  simp only [Tokens.size] at shorter
  refine .of_step (by omega) fun depth enough => ?_
  simp only [Goal.rank] at enough
  have read := assignment.result depth (by simp only [Goal.rank]; omega)
  have readRest := expression.result depth (by simp only [Goal.rank]; omega)
  have taken : accept isSemicolon (.cons ⟨.semicolon, position⟩ between) = pure (some (_, between)) :=
    accept_some rfl whole
  simp [step, read, taken, goesOn, readRest]

/-- An expression that is neither an assignment nor a statement before others. -/
theorem derives_expression (noAssignment : isOperator "=" rest.head.lexeme = false)
    (noStatement : isSemicolon rest.head.lexeme = false)
    (conditional : Derives dialect .conditional tokens term rest) :
    Derives dialect .expression tokens term rest :=
  derives_last noStatement (derives_assignment noAssignment conditional)

/-- An expression that reaches to the end of the text. -/
theorem readAll_of_derives {position : Nat} (whole : tokens.Whole)
    (expression : Derives dialect .expression tokens term (.finish position)) :
    readAll dialect tokens = pure term := by
  have read := expression.result (depthFor tokens) (by
    simp only [Goal.rank, depthFor]
    omega)
  have settled : settle tokens = pure tokens := whole
  simp [readAll, settled, read]

end Grammar

end Formula
