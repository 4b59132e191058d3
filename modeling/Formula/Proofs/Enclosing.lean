import Formula.Proofs.Faithful
import Formula.Proofs.Precedence

/-!
How the tokens of a faithful term are read. What the parser reads up to the end of a part depends on the place of
the part: a whole operand before the end of an expression, an application before an operator, and before a call, an
index or a member only what these can come after.
-/

namespace Formula

namespace Tokens

/-- Tokens that spell these lexemes before some others. -/
def Spells : List Lexeme → Tokens → Tokens → Prop
  | [], tokens, rest => tokens = rest
  | lexeme :: lexemes, tokens, rest => ∃ position after, tokens = .cons ⟨lexeme, position⟩ after ∧ Spells lexemes after rest

variable {lexemes first second : List Lexeme} {tokens rest : Tokens} {lexeme : Lexeme}

@[simp]
theorem spells_nil : Spells [] tokens rest ↔ tokens = rest := Iff.rfl

@[simp]
theorem spells_cons : Spells (lexeme :: lexemes) tokens rest ↔
    ∃ position after, tokens = .cons ⟨lexeme, position⟩ after ∧ Spells lexemes after rest := Iff.rfl

@[simp]
theorem spells_append : Spells (first ++ second) tokens rest ↔
    ∃ between, Spells first tokens between ∧ Spells second between rest := by
  induction first generalizing tokens with
  | nil => simp
  | cons lexeme first ih =>
      simp only [List.cons_append, spells_cons, ih]
      constructor
      · rintro ⟨position, after, rfl, between, one, two⟩
        exact ⟨between, ⟨position, after, rfl, one⟩, two⟩
      · rintro ⟨between, ⟨position, after, rfl, one⟩, two⟩
        exact ⟨position, after, rfl, between, one, two⟩

theorem spells_lay (first : List Token) (rest : Tokens) : Spells (first.map Token.lexeme) (lay first rest) rest := by
  induction first with
  | nil => rfl
  | cons token first ih => exact ⟨token.position, lay first rest, rfl, ih⟩

theorem Spells.lay (spells : Spells lexemes tokens rest) :
    ∃ first : List Token, first.map Token.lexeme = lexemes ∧ tokens = .lay first rest := by
  induction lexemes generalizing tokens with
  | nil => exact ⟨[], rfl, spells⟩
  | cons lexeme lexemes ih =>
      obtain ⟨position, after, rfl, later⟩ := spells
      obtain ⟨first, spelled, rfl⟩ := ih later
      exact ⟨⟨lexeme, position⟩ :: first, congrArg (lexeme :: ·) spelled, rfl⟩

theorem Spells.whole (spells : Spells lexemes tokens rest) (whole : rest.Whole) : tokens.Whole := by
  obtain ⟨first, -, rfl⟩ := spells.lay
  exact whole_lay first whole

theorem Spells.head (spells : Spells (lexeme :: lexemes) tokens rest) : tokens.head.lexeme = lexeme := by
  obtain ⟨position, after, rfl, -⟩ := spells
  rfl

end Tokens

namespace Grammar

variable {dialect : Dialect} {tokens rest : Tokens} {term : Term} {lexemes others : List Lexeme}

/-! Reading up to the end of an expression. -/

/-- The end of an operand goes on with no expression. -/
theorem goesOn_end {lexeme : Lexeme} (ends : endsOperand lexeme = true) (strength : Strength) :
    goesOn strength lexeme = false := by
  cases lexeme with
  | endOfText => exact goesOn_endOfText strength
  | closeParenthesis => exact goesOn_closeParenthesis strength
  | semicolon => exact goesOn_semicolon strength
  | comma => rcases strength with _ | (_ | _) | _ | _ | _ | _ <;> rfl
  | _ => cases ends

section

variable (quiet : ∀ strength, goesOn strength rest.head.lexeme = false)

include quiet

theorem derives_level {level : Level} (operand : Derives dialect level.operand tokens term rest) :
    Derives dialect (.chain level) tokens term rest := derives_chain operand (derives_chainEnd (quiet (.chain level)))

/-- What is read as an operand is an operand of every level, if nothing goes on with it. -/
theorem derives_operand (level : Level) (factor : Derives dialect .factor tokens term rest) :
    Derives dialect level.operand tokens term rest := by
  have product : Derives dialect (.chain .product) tokens term rest := derives_level quiet factor
  have sum : Derives dialect (.chain .sum) tokens term rest := derives_level quiet product
  have comparison : Derives dialect (.chain .comparison) tokens term rest := derives_level quiet sum
  cases level with
  | disjunction => exact derives_level quiet comparison
  | conjunction => exact comparison
  | comparison => exact sum
  | sum => exact product
  | product => exact factor

/-- A chain of some level is a conditional, if nothing goes on with it. -/
theorem derives_loosened {level : Level} (chain : Derives dialect (.chain level) tokens term rest) :
    Derives dialect .conditional tokens term rest := by
  have disjunction (chain : Derives dialect (.chain .disjunction) tokens term rest) :
      Derives dialect .conditional tokens term rest := derives_noCondition (quiet .conditional) chain
  have conjunction (chain : Derives dialect (.chain .conjunction) tokens term rest) :=
    disjunction (derives_level quiet chain)
  have comparison (chain : Derives dialect (.chain .comparison) tokens term rest) :=
    conjunction (derives_level quiet chain)
  have sum (chain : Derives dialect (.chain .sum) tokens term rest) := comparison (derives_level quiet chain)
  cases level with
  | disjunction => exact disjunction chain
  | conjunction => exact conjunction chain
  | comparison => exact comparison chain
  | sum => exact sum chain
  | product => exact sum (derives_level quiet chain)

theorem derives_loose (factor : Derives dialect .factor tokens term rest) :
    Derives dialect .conditional tokens term rest :=
  derives_loosened quiet (derives_chain (derives_operand quiet .disjunction factor)
    (derives_chainEnd (quiet (.chain .disjunction))))

end

/-- Whether some tokens are read as an operand before the end of an expression. -/
def Ends (dialect : Dialect) (lexemes : List Lexeme) (term : Term) : Prop :=
  ∀ tokens rest, Tokens.Spells lexemes tokens rest → rest.Whole → endsOperand rest.head.lexeme = true →
    Derives dialect .factor tokens term rest

theorem Ends.assignment (ends : Ends dialect lexemes term) (spells : tokens.Spells lexemes rest) (whole : rest.Whole)
    (closes : endsOperand rest.head.lexeme = true) : Derives dialect .assignment tokens term rest := by
  have noAssignment : isOperator "=" rest.head.lexeme = false := by
    cases found : rest.head.lexeme with
    | operator symbol => rw [found] at closes; cases closes
    | _ => rfl
  exact derives_assignment noAssignment (derives_loose (goesOn_end closes) (ends tokens rest spells whole closes))

theorem Ends.expression (ends : Ends dialect lexemes term) (spells : tokens.Spells lexemes rest) (whole : rest.Whole)
    (closes : endsOperand rest.head.lexeme = true) (noStatement : isSemicolon rest.head.lexeme = false) :
    Derives dialect .expression tokens term rest := derives_last noStatement (ends.assignment spells whole closes)

/-! Applications, and what a call, an index or a member may come after. -/

/-- Whether some tokens are read as what a call may come after. -/
structure Applies (dialect : Dialect) (lexemes : List Lexeme) (term : Term) : Prop where
  plain : ∃ first others, lexemes = first :: others ∧ isPrefixOperator dialect first = false
  derives : ∀ tokens rest result last, Tokens.Spells lexemes tokens rest → rest.Whole →
    isOperator "." rest.head.lexeme = false → isOpenBracket rest.head.lexeme = false →
      Derives dialect (.calls term) rest result last → Derives dialect .application tokens result last

/-- Whether some tokens are read as what an index or a member may come after. -/
structure Accesses (dialect : Dialect) (lexemes : List Lexeme) (term : Term) : Prop where
  plain : ∃ first others, lexemes = first :: others ∧ isPrefixOperator dialect first = false
  derives : ∀ tokens rest result last, Tokens.Spells lexemes tokens rest → rest.Whole →
    Derives dialect (.steps term) rest result last → Derives dialect .access tokens result last

theorem Accesses.applies (accesses : Accesses dialect lexemes term) : Applies dialect lexemes term := by
  refine ⟨accesses.plain, fun tokens rest result last spells whole noPoint noBracket calls => ?_⟩
  have access := accesses.derives tokens rest term rest spells whole (derives_noStep noPoint noBracket)
  obtain ⟨first, others, rfl, plain⟩ := accesses.plain
  exact derives_application (by rw [spells.head]; exact plain) access calls

theorem Applies.reads (applies : Applies dialect lexemes term) : Reads dialect .atom lexemes term := by
  refine ⟨fun _ => applies.plain, ?_⟩
  rintro tokens _ _ rest rfl whole - ⟨stops, rfl, rfl⟩
  simp only [goesOn, Bool.or_eq_false_iff] at stops
  obtain ⟨⟨noPoint, noBracket⟩, noCall⟩ := stops
  exact applies.derives _ rest _ rest (Tokens.spells_lay tokens rest) whole noPoint noBracket (derives_noCall noCall)

theorem Reads.ends (reads : Reads dialect .atom lexemes term) : Ends dialect lexemes term := by
  intro tokens rest spells whole closes
  obtain ⟨first, spelled, rfl⟩ := spells.lay
  have factor : Reads dialect .sign lexemes term := reads.weaken (by decide)
  exact factor.ended spelled whole fun other _ => goesOn_end closes other

/-- Whether some tokens are read as a term in some place. -/
def Parses (dialect : Dialect) (place : Place) (lexemes : List Lexeme) (term : Term) : Prop :=
  match place with
  | .ended => Ends dialect lexemes term
  | .joined => Reads dialect .atom lexemes term
  | .called => Applies dialect lexemes term
  | .indexed | .dotted => Accesses dialect lexemes term

theorem Applies.parses (applies : Applies dialect lexemes term) {place : Place} (noIndex : place ≠ .indexed)
    (noPoint : place ≠ .dotted) : Parses dialect place lexemes term := by
  cases place with
  | ended => exact applies.reads.ends
  | joined => exact applies.reads
  | called => exact applies
  | indexed => exact absurd rfl noIndex
  | dotted => exact absurd rfl noPoint

theorem Accesses.parses (accesses : Accesses dialect lexemes term) (place : Place) :
    Parses dialect place lexemes term := by
  cases place with
  | ended => exact accesses.applies.reads.ends
  | joined => exact accesses.applies.reads
  | called => exact accesses.applies
  | indexed => exact accesses
  | dotted => exact accesses

theorem accesses_atom {lexeme : Lexeme} (plain : isPrefixOperator dialect lexeme = false)
    (derives : ∀ position rest, rest.Whole → Derives dialect .atom (.cons ⟨lexeme, position⟩ rest) term rest) :
    Accesses dialect [lexeme] term := by
  refine ⟨⟨lexeme, [], rfl, plain⟩, fun tokens rest result last spells whole steps => ?_⟩
  obtain ⟨position, _, rfl, rfl⟩ := spells
  exact derives_access (derives position _ whole) steps

/-! Parentheses. -/

/-- Whether some tokens are read as an expression before a closing parenthesis. -/
def Fills (dialect : Dialect) (lexemes : List Lexeme) (term : Term) : Prop :=
  ∀ tokens closing rest, Tokens.Spells lexemes tokens (.cons ⟨.closeParenthesis, closing⟩ rest) →
    Derives dialect .expression tokens term (.cons ⟨.closeParenthesis, closing⟩ rest)

theorem Ends.fills (ends : Ends dialect lexemes term) : Fills dialect lexemes term :=
  fun _ _ _ spells => ends.expression spells (Tokens.whole_cons _ _) rfl rfl

theorem Fills.accesses (fills : Fills dialect lexemes term) : Accesses dialect (Lexeme.enclosed lexemes) term := by
  refine ⟨⟨_, _, rfl, rfl⟩, fun tokens rest result last spells whole steps => ?_⟩
  simp only [Lexeme.enclosed, Tokens.spells_cons, Tokens.spells_append, Tokens.spells_nil] at spells
  obtain ⟨opening, inner, rfl, between, inside, closing, after, rfl, rfl⟩ := spells
  exact derives_access (derives_enclosed (inside.whole (Tokens.whole_cons _ _)) whole (fills inner closing _ inside)) steps

theorem Fills.reads (fills : Fills dialect lexemes term) : Reads dialect .atom (Lexeme.enclosed lexemes) term :=
  fills.accesses.applies.reads

theorem Fills.ends (fills : Fills dialect lexemes term) : Ends dialect (Lexeme.enclosed lexemes) term :=
  fills.reads.ends

/-- What is read as an operand before a parenthesis fills it. -/
theorem fills_factor
    (derives : ∀ tokens closing rest, Tokens.Spells lexemes tokens (.cons ⟨.closeParenthesis, closing⟩ rest) →
      Derives dialect .factor tokens term (.cons ⟨.closeParenthesis, closing⟩ rest)) :
    Fills dialect lexemes term :=
  fun tokens closing rest spells => derives_expression rfl rfl
    (derives_loose (fun strength => goesOn_closeParenthesis strength) (derives tokens closing rest spells))

theorem Reads.fills {strength : Strength} (reads : Reads dialect strength lexemes term) :
    Fills dialect lexemes term := by
  intro tokens closing rest spells
  obtain ⟨first, spelled, rfl⟩ := spells.lay
  have conditional : Reads dialect .conditional lexemes term := reads.weaken (Nat.zero_le _)
  exact derives_expression rfl rfl
    (conditional.ended spelled (Tokens.whole_cons _ _) fun other _ => goesOn_closeParenthesis other)

section

variable {symbol : Text} {operand left right : Term}

theorem fills_sign (sign : isSign symbol) (known : dialect.isPrefixOperator symbol = true)
    (ends : Ends dialect lexemes operand) : Fills dialect (.operator symbol :: lexemes) (.unary symbol operand) := by
  refine fills_factor fun tokens closing rest spells => ?_
  obtain ⟨position, after, rfl, later⟩ := spells
  have whole := Tokens.whole_cons ⟨.closeParenthesis, closing⟩ rest
  exact derives_sign sign known (later.whole whole) (ends after _ later whole rfl)

/-- A word operator before an operand that does not begin with a parenthesis. -/
theorem fills_prefix {first : Lexeme} (known : dialect.isPrefixOperator symbol = true)
    (closed : isOpenParenthesis first = false) (goesOn : endsOperand first = false)
    (ends : Ends dialect (first :: lexemes) operand) :
    Fills dialect (.operator symbol :: first :: lexemes) (.unary symbol operand) := by
  refine fills_factor fun tokens closing rest spells => ?_
  obtain ⟨position, after, rfl, later⟩ := Tokens.spells_cons.mp spells
  have whole := Tokens.whole_cons ⟨.closeParenthesis, closing⟩ rest
  exact derives_prefix known (later.whole whole) (by rw [later.head]; exact closed) (by rw [later.head]; exact goesOn)
    (ends after _ later whole rfl)

/-- A word operator before parentheses that end where the operand does. -/
theorem fills_prefixOpen (known : dialect.isPrefixOperator symbol = true) (unsigned : ¬isSign symbol)
    (fills : Fills dialect lexemes operand) :
    Fills dialect (.operator symbol :: Lexeme.enclosed lexemes) (.unary symbol operand) := by
  refine fills_factor fun tokens closing rest spells => ?_
  simp only [Lexeme.enclosed, Tokens.spells_cons, Tokens.spells_append, Tokens.spells_nil] at spells
  obtain ⟨position, _, rfl, opening, inner, rfl, between, inside, ending, _, rfl, rfl⟩ := spells
  have whole := Tokens.whole_cons ⟨.closeParenthesis, closing⟩ rest
  have atom : Derives dialect .atom (.cons ⟨.openParenthesis, opening⟩ inner) operand _ :=
    derives_enclosed (inside.whole (Tokens.whole_cons _ _)) whole (fills inner ending _ inside)
  have application : Derives dialect .application (.cons ⟨.operator symbol, position⟩ _) (.unary symbol operand) _ :=
    derives_applied known (Tokens.whole_cons _ _) atom
  exact derives_prefixOpen known unsigned (Tokens.whole_cons _ _) rfl
    (derives_noPower rfl (derives_suffixed application (derives_noFactorial rfl)))

theorem fills_binary {level : Level} (listed : symbol ∈ level.symbols) (one : Reads dialect .atom lexemes left)
    (two : Ends dialect others right) :
    Fills dialect (lexemes ++ .operator symbol :: others) (level.build symbol left right) := by
  intro tokens closing rest spells
  obtain ⟨between, before, position, after, rfl, later⟩ := Tokens.spells_append.mp spells
  obtain ⟨first, spelled, rfl⟩ := before.lay
  have whole := Tokens.whole_cons ⟨.closeParenthesis, closing⟩ rest
  have quiet (strength : Strength) : goesOn strength (Tokens.cons ⟨.closeParenthesis, closing⟩ rest).head.lexeme = false :=
    goesOn_closeParenthesis strength
  have operand := derives_operand quiet level (two after _ later whole rfl)
  have loose : Reads dialect (.chain level) lexemes left := one.weaken (Strength.rank_le_atom _)
  have chain : Derives dialect (.chain level) (.lay first (.cons ⟨.operator symbol, position⟩ after))
      (level.build symbol left right) (.cons ⟨.closeParenthesis, closing⟩ rest) := by
    refine loose.derives first _ _ _ spelled (Tokens.whole_cons _ _) ?_
      (derives_chainStep listed (later.whole whole) operand (derives_chainEnd (quiet (.chain level))))
    intro other above
    exact goesOn_operator listed fun same => by subst same; exact absurd above (Nat.lt_irrefl _)
  exact derives_expression rfl rfl (derives_loosened quiet chain)

theorem fills_power (one : Reads dialect .atom lexemes left) (two : Ends dialect others right) :
    Fills dialect (lexemes ++ .operator (Text.ofString "^") :: others) (.binary (Text.ofString "^") left right) := by
  refine fills_factor fun tokens closing rest spells => ?_
  obtain ⟨between, before, position, after, rfl, later⟩ := Tokens.spells_append.mp spells
  obtain ⟨first, spelled, rfl⟩ := before.lay
  have whole := Tokens.whole_cons ⟨.closeParenthesis, closing⟩ rest
  have base : Reads dialect .factorial lexemes left := one.weaken (by decide)
  have suffixed := base.ended spelled (Tokens.whole_cons ⟨.operator (Text.ofString "^"), position⟩ after)
    fun other above => goesOn_power fun same => by subst same; exact absurd above (by decide)
  obtain ⟨begins, more, rfl, plain⟩ := one.plain (by decide)
  exact derives_plain (by rw [head_lay spelled]; exact plain)
    (derives_power (later.whole whole) suffixed (two after _ later whole rfl))

theorem fills_assign {build : Term → Term} (assignable : Assignable dialect left build)
    (target : Reads dialect .atom lexemes left) (value : Fills dialect others right) :
    Fills dialect (lexemes ++ .operator Term.assignSymbol :: Lexeme.enclosed others) (build right) := by
  intro tokens closing rest spells
  obtain ⟨between, before, position, after, rfl, later⟩ := Tokens.spells_append.mp spells
  obtain ⟨first, spelled, rfl⟩ := before.lay
  have whole := Tokens.whole_cons ⟨.closeParenthesis, closing⟩ rest
  have loose : Reads dialect .conditional lexemes left := target.weaken (Nat.zero_le _)
  have conditional := loose.ended spelled (Tokens.whole_cons ⟨.operator Term.assignSymbol, position⟩ after)
    fun strength _ => by rcases strength with _ | (_ | _) | _ | _ | _ | _ <;> rfl
  exact derives_last rfl
    (derives_assign assignable (later.whole whole) conditional (value.ends.assignment later whole rfl))

theorem fills_sequence {first : Lexeme} (goesOn : endsStatement first = false) (one : Ends dialect lexemes left)
    (two : Ends dialect (first :: others) right) :
    Fills dialect (lexemes ++ .semicolon :: first :: others) (.sequence left right) := by
  intro tokens closing rest spells
  obtain ⟨between, before, position, after, rfl, later⟩ := Tokens.spells_append.mp spells
  have whole := Tokens.whole_cons ⟨.closeParenthesis, closing⟩ rest
  exact derives_sequence (later.whole whole) (by rw [later.head]; exact goesOn)
    (one.assignment before (Tokens.whole_cons _ _) rfl) (two.expression later whole rfl rfl)

end

/-! Members, indices and lists of items. -/

section

variable {object index item callee : Term} {terms : List Term} {shape : ListShape}

theorem accesses_member {lexeme : Lexeme} {key : Text} (allowed : dialect.options.memberAccess = true)
    (named : memberName? lexeme = some key) (accesses : Accesses dialect lexemes object) :
    Accesses dialect (lexemes ++ [.operator (Text.ofString "."), lexeme]) (.member object key) := by
  obtain ⟨first, more, rfl, plain⟩ := accesses.plain
  refine ⟨⟨first, _, rfl, plain⟩, fun tokens rest result last spells whole steps => ?_⟩
  obtain ⟨between, before, place, _, rfl, position, after, rfl, rfl⟩ := Tokens.spells_append.mp spells
  exact accesses.derives tokens _ result last before (Tokens.whole_cons _ _)
    (derives_memberStep allowed named whole steps)

theorem Reads.bracketed (reads : Reads dialect .atom lexemes term) {closing : Nat}
    (spells : tokens.Spells lexemes (.cons ⟨.closeBracket, closing⟩ rest)) :
    Derives dialect .expression tokens term (.cons ⟨.closeBracket, closing⟩ rest) := by
  obtain ⟨first, spelled, rfl⟩ := spells.lay
  have conditional : Reads dialect .conditional lexemes term := reads.weaken (Nat.zero_le _)
  exact derives_expression rfl rfl (conditional.ended spelled (Tokens.whole_cons _ _)
    fun strength _ => by rcases strength with _ | (_ | _) | _ | _ | _ | _ <;> rfl)

theorem accesses_index (allowed : dialect.enables Term.indexSymbol = true) (accesses : Accesses dialect lexemes object)
    (inner : Reads dialect .atom others index) :
    Accesses dialect (lexemes ++ .openBracket :: (others ++ [.closeBracket])) (.binary Term.indexSymbol object index) := by
  obtain ⟨first, more, rfl, plain⟩ := accesses.plain
  refine ⟨⟨first, _, rfl, plain⟩, fun tokens rest result last spells whole steps => ?_⟩
  obtain ⟨between, before, position, inside, rfl, later⟩ := Tokens.spells_append.mp spells
  obtain ⟨ending, within, closing, after, rfl, rfl⟩ := Tokens.spells_append.mp later
  exact accesses.derives tokens _ result last before (Tokens.whole_cons _ _)
    (derives_indexStep allowed (within.whole (Tokens.whole_cons _ _)) whole (inner.bracketed within) steps)

/-- The place of the last item of a list. -/
def lastPlace : ListShape → Place
  | .call _ => .ended
  | .array => .joined

/-- Whether some tokens are read as the items of a list, up to its end. -/
def Lists (dialect : Dialect) (shape : ListShape) (lexemes : List Lexeme) (terms : List Term) : Prop :=
  ∀ done tokens closing rest, Tokens.Spells lexemes tokens (.cons ⟨shape.closer, closing⟩ rest) → rest.Whole →
    Derives dialect (.items shape done) tokens (shape.build (done ++ terms)) rest

theorem lists_last (parses : Parses dialect (lastPlace shape) lexemes item) : Lists dialect shape lexemes [item] := by
  intro done tokens closing rest spells whole
  have expression : Derives dialect .expression tokens item (.cons ⟨shape.closer, closing⟩ rest) := by
    cases shape with
    | call callee => exact Ends.expression parses spells (Tokens.whole_cons _ _) rfl rfl
    | array => exact Reads.bracketed parses spells
  exact derives_lastItem whole expression

theorem lists_next (ends : Ends dialect lexemes item) (later : Lists dialect shape others terms) :
    Lists dialect shape (lexemes ++ .comma :: others) (item :: terms) := by
  intro done tokens closing rest spells whole
  obtain ⟨between, before, position, after, rfl, items⟩ := Tokens.spells_append.mp spells
  have further := later (done ++ [item]) after closing rest items whole
  rw [List.append_assoc, List.singleton_append] at further
  exact derives_nextItem (items.whole (Tokens.whole_cons _ _)) (ends.expression before (Tokens.whole_cons _ _) rfl rfl)
    further

theorem applies_emptyCall (applies : Applies dialect lexemes callee) :
    Applies dialect (lexemes ++ Lexeme.enclosed []) (.call callee []) := by
  obtain ⟨first, more, rfl, plain⟩ := applies.plain
  refine ⟨⟨first, _, rfl, plain⟩, fun tokens rest result last spells whole _ _ calls => ?_⟩
  obtain ⟨between, before, position, _, rfl, closing, after, rfl, rfl⟩ := Tokens.spells_append.mp spells
  exact applies.derives tokens _ result last before (Tokens.whole_cons _ _) rfl rfl (derives_emptyCall whole calls)

theorem applies_call {first : Lexeme} (filled : isCloseParenthesis first = false)
    (applies : Applies dialect lexemes callee) (lists : Lists dialect (.call callee) (first :: others) terms) :
    Applies dialect (lexemes ++ Lexeme.enclosed (first :: others)) (.call callee terms) := by
  obtain ⟨begins, more, rfl, plain⟩ := applies.plain
  refine ⟨⟨begins, _, rfl, plain⟩, fun tokens rest result last spells whole _ _ calls => ?_⟩
  obtain ⟨between, before, position, inside, rfl, later⟩ := Tokens.spells_append.mp spells
  obtain ⟨ending, within, closing, after, rfl, rfl⟩ := Tokens.spells_append.mp later
  exact applies.derives tokens _ result last before (Tokens.whole_cons _ _) rfl rfl
    (derives_call (within.whole (Tokens.whole_cons _ _)) (by rw [within.head]; exact filled)
      (lists [] inside closing _ within whole) calls)

theorem accesses_emptyArray : Accesses dialect [.openBracket, .closeBracket] (.array []) := by
  refine ⟨⟨_, _, rfl, rfl⟩, fun tokens rest result last spells whole steps => ?_⟩
  obtain ⟨position, _, rfl, closing, after, rfl, rfl⟩ := spells
  exact derives_access (derives_emptyArray whole) steps

theorem accesses_array {first : Lexeme} (filled : isCloseBracket first = false)
    (lists : Lists dialect .array (first :: others) terms) :
    Accesses dialect (.openBracket :: (first :: others ++ [.closeBracket])) (.array terms) := by
  refine ⟨⟨_, _, rfl, rfl⟩, fun tokens rest result last spells whole steps => ?_⟩
  obtain ⟨position, inside, rfl, later⟩ := Tokens.spells_cons.mp spells
  obtain ⟨ending, within, closing, after, rfl, rfl⟩ := Tokens.spells_append.mp later
  exact derives_access (derives_array (within.whole (Tokens.whole_cons _ _)) (by rw [within.head]; exact filled)
    (lists [] inside closing _ within whole)) steps

end

end Grammar

end Formula
