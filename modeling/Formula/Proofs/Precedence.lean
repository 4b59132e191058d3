import Formula.Proofs.Derivation
import Formula.Proofs.Spacing

/-!
The precedence of operators. A tree of operators is written with parentheses only where a part is too
weak for its place, and the parser reads the text back as the tree.
-/

namespace Formula

/-- How strongly an expression holds together: as strongly as its outermost operator binds. -/
inductive Strength where
  | conditional
  | chain (level : Level)
  | sign
  | power
  | factorial
  | atom
  deriving DecidableEq, Repr

namespace Strength

def rank : Strength → Nat
  | .conditional => 0
  | .chain .disjunction => 1
  | .chain .conjunction => 2
  | .chain .comparison => 3
  | .chain .sum => 4
  | .chain .product => 5
  | .sign => 6
  | .power => 7
  | .factorial => 8
  | .atom => 9

/-- The next strength. -/
def tighter : Strength → Strength
  | .conditional => .chain .disjunction
  | .chain .disjunction => .chain .conjunction
  | .chain .conjunction => .chain .comparison
  | .chain .comparison => .chain .sum
  | .chain .sum => .chain .product
  | .chain .product => .sign
  | .sign => .power
  | .power => .factorial
  | .factorial | .atom => .atom

theorem rank_tighter {strength : Strength} (below : strength ≠ .atom) :
    strength.tighter.rank = strength.rank + 1 := by
  cases strength with
  | chain level => cases level <;> rfl
  | atom => exact absurd rfl below
  | _ => rfl

theorem rank_injective {strength other : Strength} (same : strength.rank = other.rank) :
    strength = other := by
  rcases strength with _ | (_ | _) | _ | _ | _ | _ <;> rcases other with _ | (_ | _) | _ | _ | _ | _ <;>
    first | rfl | cases same

theorem rank_le_atom (strength : Strength) : strength.rank ≤ Strength.atom.rank := by
  rcases strength with _ | (_ | _) | _ | _ | _ | _ <;> decide

end Strength

/-- An operator between two operands, but for the power. -/
structure Operator where
  level : Level
  symbol : Text
  listed : symbol ∈ level.symbols

inductive Sign where
  | minus
  | plus

def Sign.symbol : Sign → Text
  | .minus => Text.ofString "-"
  | .plus => Text.ofString "+"

inductive OperatorTree where
  | name (identifier : Identifier)
  | number (value : Nat)
  | binary (operator : Operator) (left right : OperatorTree)
  | power (base exponent : OperatorTree)
  | sign (mark : Sign) (operand : OperatorTree)
  | factorial (operand : OperatorTree)
  | conditional (condition yes no : OperatorTree)

namespace OperatorTree

def strength : OperatorTree → Strength
  | .name _ | .number _ => .atom
  | .binary operator _ _ => .chain operator.level
  | .power _ _ => .power
  | .sign _ _ => .sign
  | .factorial _ => .factorial
  | .conditional _ _ _ => .conditional

/-- Tokens in a place that needs some strength: in parentheses if they are too weak for it. -/
def placed (place strength : Strength) (lexemes : List Lexeme) : List Lexeme :=
  if place.rank ≤ strength.rank then lexemes
  else .openParenthesis :: (lexemes ++ [.closeParenthesis])

/-- The tokens of a tree. On the right of an operator only what is stronger goes without parentheses, and
on the left what is as strong too. With the power it is the other way round, and signs may stand in the
exponent. -/
def lexemes : OperatorTree → List Lexeme
  | .name identifier => [.name identifier.word]
  | .number value => [.number (.int value)]
  | .binary operator left right =>
    let place := Strength.chain operator.level
    placed place left.strength left.lexemes ++
      .operator operator.symbol :: placed place.tighter right.strength right.lexemes
  | .power base exponent =>
    placed .factorial base.strength base.lexemes ++
      .operator (Text.ofString "^") :: placed .sign exponent.strength exponent.lexemes
  | .sign mark operand => .operator mark.symbol :: placed .sign operand.strength operand.lexemes
  | .factorial operand =>
    placed .factorial operand.strength operand.lexemes ++ [.operator (Text.ofString "!")]
  | .conditional condition yes no =>
    placed (.chain .disjunction) condition.strength condition.lexemes ++
      .operator (Text.ofString "?") :: (yes.lexemes ++
        .operator (Text.ofString ":") :: no.lexemes)

/-- The text of a tree, with a space between tokens. -/
def printed (tree : OperatorTree) : Text :=
  Text.join (Text.ofString " ") (tree.lexemes.map Lexeme.written)

/-- The postfix program of a tree. The right side of `and` and `or` and both arms of a conditional are
programs of their own. -/
def code : OperatorTree → Program
  | .name identifier => [.name identifier.word]
  | .number value => [.literal (.int value)]
  | .binary ⟨.disjunction, symbol, _⟩ left right | .binary ⟨.conjunction, symbol, _⟩ left right =>
    left.code ++ [.nested right.code, .binary symbol]
  | .binary operator left right => left.code ++ right.code ++ [.binary operator.symbol]
  | .power base exponent => base.code ++ exponent.code ++ [.binary (Text.ofString "^")]
  | .sign mark operand => operand.code ++ [.unary mark.symbol]
  | .factorial operand => operand.code ++ [.unary (Text.ofString "!")]
  | .conditional condition yes no =>
    condition.code ++ [.nested yes.code, .nested no.code, .ternary (Text.ofString "?")]

/-- The term of a tree. -/
def term : OperatorTree → Term
  | .name identifier => .name identifier.word
  | .number value => .literal (.int value)
  | .binary operator left right => operator.level.build operator.symbol left.term right.term
  | .power base exponent => .binary (Text.ofString "^") base.term exponent.term
  | .sign mark operand => .unary mark.symbol operand.term
  | .factorial operand => .unary (Text.ofString "!") operand.term
  | .conditional condition yes no => .conditional condition.term yes.term no.term

theorem code_term (tree : OperatorTree) : tree.term.code = tree.code := by
  induction tree with
  | name identifier => rfl
  | number value => rfl
  | binary operator left right ihLeft ihRight =>
      obtain ⟨level, symbol, listed⟩ := operator
      cases level <;> simp [term, code, Level.build, Term.code, ihLeft, ihRight]
  | power base exponent ihBase ihExponent => simp [term, code, Term.code, ihBase, ihExponent]
  | sign mark operand ih => simp [term, code, Term.code, ih]
  | factorial operand ih => simp [term, code, Term.code, ih]
  | conditional condition yes no ihCondition ihYes ihNo =>
      simp [term, code, Term.code, Term.conditionSymbol, ihCondition, ihYes, ihNo]

end OperatorTree

namespace Grammar

/-- Whether a token goes on with an expression of some strength. -/
def goesOn : Strength → Lexeme → Bool
  | .conditional, lexeme => isOperator "?" lexeme
  | .chain level, lexeme => level.symbols.any (lexeme.isOperator ·)
  | .sign, _ => false
  | .power, lexeme => isOperator "^" lexeme
  | .factorial, lexeme => isOperator "!" lexeme
  | .atom, lexeme => isOperator "." lexeme || isOpenBracket lexeme || isOpenParenthesis lexeme

/-- Whether a token goes on with nothing that is stronger. -/
def Clear (strength : Strength) (lexeme : Lexeme) : Prop :=
  ∀ other : Strength, strength.rank < other.rank → goesOn other lexeme = false

/-- The goal that an expression of some strength is read towards. -/
def goal : Strength → Goal
  | .conditional => .conditional
  | .chain level => .chain level
  | .sign => .factor
  | .power => .power
  | .factorial => .suffixed
  | .atom => .application

variable {dialect : Dialect}

/-- How the parser goes on with a term of some strength. -/
def Onward (dialect : Dialect) (strength : Strength) (term : Term) (rest : Tokens) (result : Term)
    (last : Tokens) : Prop :=
  match strength with
  | .chain level => Derives dialect (.chainRest level term) rest result last
  | .factorial => Derives dialect (.factorials term) rest result last
  | _ => goesOn strength rest.head.lexeme = false ∧ result = term ∧ last = rest

/-- Whether some tokens are read as a term of some strength, whatever comes after them, as long as it does
not go on with anything stronger. -/
structure Reads (dialect : Dialect) (strength : Strength) (lexemes : List Lexeme) (term : Term) :
    Prop where
  plain : Strength.sign.rank < strength.rank → ∃ first others, lexemes = first :: others ∧
    isPrefixOperator dialect first = false
  derives : ∀ (tokens : List Token) (rest : Tokens) (result : Term) (last : Tokens),
    tokens.map Token.lexeme = lexemes → rest.Whole → Clear strength rest.head.lexeme →
      Onward dialect strength term rest result last →
        Derives dialect (goal strength) (.lay tokens rest) result last

theorem onward_end {strength : Strength} {term : Term} {rest : Tokens}
    (stops : goesOn strength rest.head.lexeme = false) :
    Onward dialect strength term rest term rest := by
  cases strength with
  | chain level => exact derives_chainEnd stops
  | factorial => exact derives_noFactorial stops
  | _ => exact ⟨stops, rfl, rfl⟩

/-- What comes after a term ends it, if it goes on neither with the term nor with anything stronger. -/
theorem Reads.ended {strength : Strength} {lexemes : List Lexeme} {term : Term}
    (reads : Reads dialect strength lexemes term) {tokens : List Token} {rest : Tokens}
    (spelled : tokens.map Token.lexeme = lexemes) (whole : rest.Whole)
    (clear : ∀ other : Strength, strength.rank ≤ other.rank → goesOn other rest.head.lexeme = false) :
    Derives dialect (goal strength) (.lay tokens rest) term rest :=
  reads.derives tokens rest term rest spelled whole (fun other above => clear other (Nat.le_of_lt above))
    (onward_end (clear strength (Nat.le_refl _)))

theorem goal_tighter (level : Level) : goal (Strength.chain level).tighter = level.operand := by
  cases level <;> rfl

/-- The head of tokens that begin with some lexeme. -/
theorem head_lay {tokens : List Token} {rest : Tokens} {first : Lexeme} {others : List Lexeme}
    (spelled : tokens.map Token.lexeme = first :: others) :
    (Tokens.lay tokens rest).head.lexeme = first := by
  obtain ⟨token, after, rfl, rfl, -⟩ := List.map_eq_cons_iff.mp spelled
  rfl

/-- What is read as a term of some strength is read as one of the strength before it. -/
theorem Reads.loosen {strength : Strength} {lexemes : List Lexeme} {term : Term}
    (reads : Reads dialect strength.tighter lexemes term) : Reads dialect strength lexemes term := by
  by_cases top : strength = .atom
  · subst top
    exact reads
  have rank := Strength.rank_tighter top
  refine ⟨fun strong => reads.plain (by omega), ?_⟩
  intro tokens rest result last spelled whole clear onward
  have ended := reads.ended spelled whole fun other above => clear other (by omega)
  have plain (strong : Strength.sign.rank < strength.tighter.rank) :
      isPrefixOperator dialect (Tokens.lay tokens rest).head.lexeme = false := by
    obtain ⟨first, others, same, plain⟩ := reads.plain strong
    rw [head_lay (spelled.trans same)]
    exact plain
  cases strength with
  | conditional =>
      obtain ⟨stops, rfl, rfl⟩ := onward
      exact derives_noCondition stops ended
  | chain level =>
      rw [goal_tighter] at ended
      exact derives_chain ended onward
  | sign =>
      obtain ⟨stops, rfl, rfl⟩ := onward
      exact derives_plain (plain (by decide)) ended
  | power =>
      obtain ⟨stops, rfl, rfl⟩ := onward
      exact derives_noPower stops ended
  | factorial => exact derives_suffixed ended onward
  | atom => exact absurd rfl top

theorem Reads.weaken {strength other : Strength} {lexemes : List Lexeme} {term : Term}
    (reads : Reads dialect other lexemes term) (weaker : strength.rank ≤ other.rank) :
    Reads dialect strength lexemes term := by
  induction gap : other.rank - strength.rank generalizing strength with
  | zero =>
      obtain rfl : strength = other := Strength.rank_injective (by omega)
      exact reads
  | succ gap ih =>
      have below : strength ≠ .atom := by
        rintro rfl
        have := other.rank_le_atom
        omega
      have rank := Strength.rank_tighter below
      exact (ih (by omega) (by omega)).loosen

/-! Which tokens go on with what. -/

theorem goesOn_closeParenthesis (strength : Strength) :
    goesOn strength .closeParenthesis = false := by
  rcases strength with _ | (_ | _) | _ | _ | _ | _ <;> rfl

theorem goesOn_endOfText (strength : Strength) : goesOn strength .endOfText = false := by
  rcases strength with _ | (_ | _) | _ | _ | _ | _ <;> rfl

theorem goesOn_semicolon (strength : Strength) : goesOn strength .semicolon = false := by
  rcases strength with _ | (_ | _) | _ | _ | _ | _ <;> rfl

theorem goesOn_colon (strength : Strength) :
    goesOn strength (.operator (Text.ofString ":")) = false := by
  rcases strength with _ | (_ | _) | _ | _ | _ | _ <;> rfl

theorem goesOn_question {strength : Strength} (above : strength ≠ .conditional) :
    goesOn strength (.operator (Text.ofString "?")) = false := by
  rcases strength with _ | (_ | _) | _ | _ | _ | _ <;> first | rfl | exact absurd rfl above

theorem goesOn_power {strength : Strength} (other : strength ≠ .power) :
    goesOn strength (.operator (Text.ofString "^")) = false := by
  rcases strength with _ | (_ | _) | _ | _ | _ | _ <;> first | rfl | exact absurd rfl other

theorem goesOn_factorial {strength : Strength} (other : strength ≠ .factorial) :
    goesOn strength (.operator (Text.ofString "!")) = false := by
  rcases strength with _ | (_ | _) | _ | _ | _ | _ <;> first | rfl | exact absurd rfl other

/-- An operator of a level goes on with expressions of this level only. -/
theorem goesOn_operator {level : Level} {symbol : Text} (listed : symbol ∈ level.symbols)
    {strength : Strength} (other : strength ≠ .chain level) :
    goesOn strength (.operator symbol) = false := by
  revert symbol
  rcases strength with _ | (_ | _) | _ | _ | _ | _ <;> cases level <;>
    first | exact absurd rfl other | decide

/-! Reading, one kind of expression after the other. -/

variable {lexemes others : List Lexeme} {term other : Term}

theorem reads_atom {lexeme : Lexeme} (plain : isPrefixOperator dialect lexeme = false)
    (derives : ∀ position rest, rest.Whole →
      Derives dialect .atom (.cons ⟨lexeme, position⟩ rest) term rest) :
    Reads dialect .atom [lexeme] term := by
  refine ⟨fun _ => ⟨lexeme, [], rfl, plain⟩, ?_⟩
  rintro tokens _ _ rest spelled whole - ⟨stops, rfl, rfl⟩
  obtain ⟨⟨_, position⟩, after, rfl, rfl, none⟩ := List.map_eq_cons_iff.mp spelled
  obtain rfl := List.map_eq_nil_iff.mp none
  simp only [goesOn, Bool.or_eq_false_iff] at stops
  obtain ⟨⟨noPoint, noBracket⟩, noCall⟩ := stops
  exact derives_application plain
    (derives_access (derives position rest whole) (derives_noStep noPoint noBracket))
    (derives_noCall noCall)

/-- Parentheses around whatever is read up to the closing one. -/
theorem reads_parenthesized
    (inner : ∀ (tokens : List Token) (closing : Nat) (rest : Tokens), tokens.map Token.lexeme = lexemes →
      Derives dialect .expression (.lay tokens (.cons ⟨.closeParenthesis, closing⟩ rest)) term
        (.cons ⟨.closeParenthesis, closing⟩ rest)) :
    Reads dialect .atom (.openParenthesis :: (lexemes ++ [.closeParenthesis])) term := by
  refine ⟨fun _ => ⟨_, _, rfl, rfl⟩, ?_⟩
  rintro tokens _ _ rest spelled whole - ⟨stops, rfl, rfl⟩
  obtain ⟨⟨_, opening⟩, after, rfl, rfl, spelledAfter⟩ := List.map_eq_cons_iff.mp spelled
  obtain ⟨middle, ending, rfl, spelledInner, spelledEnding⟩ :=
    List.map_eq_append_iff.mp spelledAfter
  obtain ⟨⟨_, closing⟩, none, rfl, rfl, empty⟩ := List.map_eq_cons_iff.mp spelledEnding
  obtain rfl := List.map_eq_nil_iff.mp empty
  simp only [goesOn, Bool.or_eq_false_iff] at stops
  obtain ⟨⟨noPoint, noBracket⟩, noCall⟩ := stops
  rw [Tokens.lay_cons, Tokens.lay_append]
  exact derives_application rfl
    (derives_access (derives_enclosed (Tokens.whole_lay _ (Tokens.whole_cons _ _)) whole
      (inner middle closing rest spelledInner)) (derives_noStep noPoint noBracket))
    (derives_noCall noCall)

theorem reads_enclosed (inner : Reads dialect .conditional lexemes term) :
    Reads dialect .atom (.openParenthesis :: (lexemes ++ [.closeParenthesis])) term :=
  reads_parenthesized fun _ closing rest spelled => derives_expression rfl rfl
    (inner.ended spelled (Tokens.whole_cons ⟨.closeParenthesis, closing⟩ rest)
      fun other _ => goesOn_closeParenthesis other)

theorem reads_factorial (operand : Reads dialect .factorial lexemes term) :
    Reads dialect .factorial (lexemes ++ [.operator (Text.ofString "!")])
      (.unary (Text.ofString "!") term) := by
  constructor
  · intro strong
    obtain ⟨first, others, rfl, plain⟩ := operand.plain strong
    exact ⟨first, others ++ [.operator (Text.ofString "!")], rfl, plain⟩
  · intro tokens rest result last spelled whole clear onward
    obtain ⟨first, ending, rfl, spelledOperand, spelledEnding⟩ := List.map_eq_append_iff.mp spelled
    obtain ⟨⟨_, position⟩, none, rfl, rfl, empty⟩ := List.map_eq_cons_iff.mp spelledEnding
    obtain rfl := List.map_eq_nil_iff.mp empty
    rw [Tokens.lay_append]
    refine operand.derives first _ result last spelledOperand (Tokens.whole_cons _ _) ?_
      (derives_factorial whole onward)
    intro other above
    exact goesOn_factorial fun same => by subst same; exact absurd above (Nat.lt_irrefl _)

theorem reads_power (base : Reads dialect .factorial lexemes term)
    (exponent : Reads dialect .sign others other) :
    Reads dialect .power (lexemes ++ .operator (Text.ofString "^") :: others)
      (.binary (Text.ofString "^") term other) := by
  constructor
  · intro strong
    obtain ⟨first, after, rfl, plain⟩ := base.plain (by decide)
    exact ⟨first, _, rfl, plain⟩
  · rintro tokens _ _ rest spelled whole clear ⟨stops, rfl, rfl⟩
    obtain ⟨first, second, rfl, spelledBase, spelledSecond⟩ := List.map_eq_append_iff.mp spelled
    obtain ⟨⟨_, position⟩, last, rfl, rfl, spelledExponent⟩ := List.map_eq_cons_iff.mp spelledSecond
    rw [Tokens.lay_append, Tokens.lay_cons]
    refine derives_power (Tokens.whole_lay last whole) (base.ended spelledBase
      (Tokens.whole_cons _ _) ?_) (exponent.ended spelledExponent whole ?_)
    · intro other above
      exact goesOn_power fun same => by subst same; exact absurd above (by decide)
    · intro other above
      rcases Nat.lt_trichotomy Strength.power.rank other.rank with stronger | same | weaker
      · exact clear other stronger
      · obtain rfl := Strength.rank_injective same
        exact stops
      · obtain rfl : other = .sign := Strength.rank_injective (by
          simp only [Strength.rank] at above weaker ⊢
          omega)
        rfl

theorem reads_sign {mark : Sign} (known : dialect.isPrefixOperator mark.symbol = true)
    (operand : Reads dialect .sign lexemes term) :
    Reads dialect .sign (.operator mark.symbol :: lexemes) (.unary mark.symbol term) := by
  refine ⟨fun strong => absurd strong (Nat.lt_irrefl _), ?_⟩
  rintro tokens _ _ rest spelled whole clear ⟨stops, rfl, rfl⟩
  obtain ⟨⟨_, position⟩, after, rfl, rfl, spelledAfter⟩ := List.map_eq_cons_iff.mp spelled
  have read := operand.derives after _ _ _ spelledAfter whole clear ⟨stops, rfl, rfl⟩
  rw [Tokens.lay_cons]
  exact derives_sign (by cases mark <;> simp [Sign.symbol]) known (Tokens.whole_lay after whole) read

theorem reads_binary (operator : Operator)
    (left : Reads dialect (.chain operator.level) lexemes term)
    (right : Reads dialect (Strength.chain operator.level).tighter others other) :
    Reads dialect (.chain operator.level) (lexemes ++ .operator operator.symbol :: others)
      (operator.level.build operator.symbol term other) := by
  have weak : (Strength.chain operator.level).rank < Strength.sign.rank := by
    cases operator.level <;> decide
  have rank : (Strength.chain operator.level).tighter.rank = (Strength.chain operator.level).rank + 1 :=
    Strength.rank_tighter (by simp)
  refine ⟨fun strong => absurd strong (Nat.lt_asymm weak), ?_⟩
  intro tokens rest result last spelled whole clear onward
  obtain ⟨first, second, rfl, spelledLeft, spelledSecond⟩ := List.map_eq_append_iff.mp spelled
  obtain ⟨⟨_, position⟩, after, rfl, rfl, spelledRight⟩ := List.map_eq_cons_iff.mp spelledSecond
  have read := right.ended spelledRight whole fun other above => clear other (by omega)
  rw [goal_tighter] at read
  rw [Tokens.lay_append, Tokens.lay_cons]
  refine left.derives first _ result last spelledLeft (Tokens.whole_cons _ _) ?_
    (derives_chainStep operator.listed (Tokens.whole_lay after whole) read onward)
  intro other above
  exact goesOn_operator operator.listed fun same => by subst same; exact absurd above (Nat.lt_irrefl _)

theorem reads_conditional {second third : List Lexeme} {yes no : Term}
    (condition : Reads dialect (.chain .disjunction) lexemes term)
    (first : Reads dialect .conditional second yes) (last : Reads dialect .conditional third no) :
    Reads dialect .conditional (lexemes ++ .operator (Text.ofString "?") ::
      (second ++ .operator (Text.ofString ":") :: third)) (.conditional term yes no) := by
  refine ⟨fun strong => absurd strong (by decide), ?_⟩
  rintro tokens _ _ rest spelled whole clear ⟨stops, rfl, rfl⟩
  obtain ⟨before, after, rfl, spelledBefore, spelledAfter⟩ := List.map_eq_append_iff.mp spelled
  obtain ⟨⟨_, asked⟩, arms, rfl, rfl, spelledArms⟩ := List.map_eq_cons_iff.mp spelledAfter
  obtain ⟨middle, ending, rfl, spelledYes, spelledEnding⟩ := List.map_eq_append_iff.mp spelledArms
  obtain ⟨⟨_, parted⟩, final, rfl, rfl, spelledNo⟩ := List.map_eq_cons_iff.mp spelledEnding
  rw [Tokens.lay_append, Tokens.lay_cons, Tokens.lay_append, Tokens.lay_cons]
  refine derives_condition (Tokens.whole_lay _ (Tokens.whole_cons _ _)) (Tokens.whole_lay _ whole)
    (condition.ended spelledBefore (Tokens.whole_cons _ _) ?_)
    (first.ended spelledYes (Tokens.whole_cons _ _) fun other _ => goesOn_colon other)
    (last.derives final _ _ _ spelledNo whole clear ⟨stops, rfl, rfl⟩)
  intro other above
  exact goesOn_question fun same => by subst same; exact absurd above (by decide)

/-- A part is read in its place, in parentheses or not. -/
theorem reads_placed (place : Strength) {strength : Strength}
    (reads : Reads dialect strength lexemes term) :
    Reads dialect place (OperatorTree.placed place strength lexemes) term := by
  rw [OperatorTree.placed]
  split
  · exact reads.weaken ‹_›
  · exact (reads_enclosed (reads.weaken (Nat.zero_le _))).weaken place.rank_le_atom

theorem reads_tree (tree : OperatorTree) :
    Reads (.standard {}) tree.strength tree.lexemes tree.term := by
  induction tree with
  | name identifier => exact reads_atom rfl fun _ _ whole => derives_name whole
  | number value => exact reads_atom rfl fun _ _ whole => derives_number whole
  | binary operator left right ihLeft ihRight =>
      exact reads_binary operator (reads_placed _ ihLeft) (reads_placed _ ihRight)
  | power base exponent ihBase ihExponent =>
      exact reads_power (reads_placed _ ihBase) (reads_placed _ ihExponent)
  | sign mark operand ih => exact reads_sign (by cases mark <;> rfl) (reads_placed _ ih)
  | factorial operand ih => exact reads_factorial (reads_placed _ ih)
  | conditional condition yes no ihCondition ihYes ihNo =>
      exact reads_conditional (reads_placed _ ihCondition) (ihYes.weaken (Nat.zero_le _))
        (ihNo.weaken (Nat.zero_le _))

/-- The tokens of a tree are read as the tree. -/
theorem readAll_tree (tree : OperatorTree) {tokens : List Token}
    (spelled : tokens.map Token.lexeme = tree.lexemes) (last : Nat) :
    readAll (.standard {}) (.lay tokens (.finish last)) = pure tree.term := by
  have whole := Tokens.whole_finish last
  have weak : Reads (.standard {}) .conditional tree.lexemes tree.term :=
    (reads_tree tree).weaken (Nat.zero_le _)
  have conditional := weak.ended spelled whole fun other _ => goesOn_endOfText other
  exact readAll_of_derives (Tokens.whole_lay tokens whole) (derives_expression rfl rfl conditional)

end Grammar

namespace OperatorTree

theorem spelled_placed {place strength : Strength} {lexemes : List Lexeme}
    (spelled : ∀ lexeme ∈ lexemes, ∃ first others, Scan.Spelled (.standard {}) lexeme first others) :
    ∀ lexeme ∈ placed place strength lexemes,
      ∃ first others, Scan.Spelled (.standard {}) lexeme first others := by
  intro lexeme member
  rw [placed] at member
  split at member
  · exact spelled lexeme member
  · simp only [List.mem_cons, List.mem_append, List.not_mem_nil, or_false] at member
    rcases member with rfl | member | rfl
    · exact ⟨_, _, Scan.spelled_openParenthesis⟩
    · exact spelled lexeme member
    · exact ⟨_, _, Scan.spelled_closeParenthesis⟩

/-- Every token of a tree is read back as it is written. -/
theorem spelled (tree : OperatorTree) : ∀ lexeme ∈ tree.lexemes,
    ∃ first others, Scan.Spelled (.standard {}) lexeme first others := by
  induction tree with
  | name identifier =>
      intro lexeme member
      obtain rfl := List.mem_singleton.mp member
      exact ⟨_, _, identifier.spelled⟩
  | number value =>
      intro lexeme member
      obtain rfl := List.mem_singleton.mp member
      exact Scan.spelled_number value
  | binary operator left right ihLeft ihRight =>
      intro lexeme member
      simp only [lexemes, List.mem_append, List.mem_cons] at member
      rcases member with member | rfl | member
      · exact spelled_placed ihLeft lexeme member
      · exact Scan.spelled_operator operator.listed
      · exact spelled_placed ihRight lexeme member
  | power base exponent ihBase ihExponent =>
      intro lexeme member
      simp only [lexemes, List.mem_append, List.mem_cons] at member
      rcases member with member | rfl | member
      · exact spelled_placed ihBase lexeme member
      · exact ⟨_, _, Scan.spelled_sign '^' (by decide)⟩
      · exact spelled_placed ihExponent lexeme member
  | sign mark operand ih =>
      intro lexeme member
      simp only [lexemes, List.mem_cons] at member
      rcases member with rfl | member
      · cases mark
        · exact ⟨_, _, Scan.spelled_sign '-' (by decide)⟩
        · exact ⟨_, _, Scan.spelled_sign '+' (by decide)⟩
      · exact spelled_placed ih lexeme member
  | factorial operand ih =>
      intro lexeme member
      simp only [lexemes, List.mem_append, List.mem_singleton] at member
      rcases member with member | rfl
      · exact spelled_placed ih lexeme member
      · exact ⟨_, _, Scan.spelled_sign '!' (by decide)⟩
  | conditional condition yes no ihCondition ihYes ihNo =>
      intro lexeme member
      simp only [lexemes, List.mem_append, List.mem_cons] at member
      rcases member with member | rfl | member | rfl | member
      · exact spelled_placed ihCondition lexeme member
      · exact ⟨_, _, Scan.spelled_sign '?' (by decide)⟩
      · exact ihYes lexeme member
      · exact ⟨_, _, Scan.spelled_sign ':' (by decide)⟩
      · exact ihNo lexeme member

/-- The parser reads the text of a tree, and its program is the postfix program of the tree. -/
theorem parse_printed (tree : OperatorTree) :
    ∃ term, parse (.standard {}) tree.printed = .ok term ∧ term.code = tree.code := by
  obtain ⟨tokens, last, lexed, scanned⟩ :=
    Scan.scan_spaced tree.lexemes tree.spelled ⟨0, tree.printed⟩ 0 rfl
  refine ⟨tree.term, ?_, tree.code_term⟩
  have read := Grammar.readAll_tree tree lexed last
  rw [← scanned] at read
  simp only [parse, Tokens.ofText, read]
  rfl

end OperatorTree

end Formula
