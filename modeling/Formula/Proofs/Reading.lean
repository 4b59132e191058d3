import Formula.Proofs.Derivation

/-!
What the parser comes to, at every depth that is enough: a term for a stretch of the tokens in which all
brackets are closed, or a fault at one of the tokens. A property of terms that the grammar keeps holds of
the term.
-/

namespace Formula

namespace Parse

variable {α β : Type} {post : α → Prop} {final : β → Prop} {faulty : ParseFault → Prop}

/-- A reading comes to an end: to a result, or to a fault. -/
def Ends (post : α → Prop) (faulty : ParseFault → Prop) (reading : Parse α) : Prop :=
  match reading.run with
  | some (.ok result) => post result
  | some (.error fault) => faulty fault
  | none => False

theorem ends_pure {result : α} (holds : post result) : Ends post faulty (pure result) := holds

theorem ends_throw {fault : ParseFault} (holds : faulty fault) : Ends post faulty (throw fault) := holds

theorem ends_bind {first : Parse α} {next : α → Parse β} (ends : Ends post faulty first)
    (follows : ∀ result, post result → Ends final faulty (next result)) :
    Ends final faulty (first >>= next) := by
  change Ends final faulty (ExceptT.bind first next)
  unfold Ends at ends ⊢
  simp only [ExceptT.run, ExceptT.bind, ExceptT.mk] at ends ⊢
  cases came : first with
  | none => rw [came] at ends; exact ends
  | some outcome =>
      rw [came] at ends
      cases outcome with
      | error fault => exact ends
      | ok result => exact follows result ends

theorem Ends.weaken {other : α → Prop} {wider : ParseFault → Prop} {reading : Parse α}
    (ends : Ends post faulty reading) (results : ∀ result, post result → other result)
    (faults : ∀ fault, faulty fault → wider fault) : Ends other wider reading := by
  unfold Ends at ends ⊢
  split at ends
  · exact results _ ends
  · exact faults _ ends
  · exact ends

end Parse

/-- A fault in the order of the tokens, found at a token. -/
structure ParseFault.At (fault : ParseFault) (token : Token) : Prop where
  syntactic : fault.isLexical = false
  position : fault.position = token.position
  found : fault.found = some token.lexeme

def Lexeme.isBracket : Lexeme → Bool
  | .openParenthesis | .closeParenthesis | .openBracket | .closeBracket => true
  | _ => false

/-- Tokens in which every bracket is closed, and by one of its kind. -/
inductive Balanced : List Lexeme → Prop
  | nil : Balanced []
  | plain {lexeme : Lexeme} {rest : List Lexeme} (plain : lexeme.isBracket = false) (others : Balanced rest) :
      Balanced (lexeme :: rest)
  | parentheses {inner rest : List Lexeme} (within : Balanced inner) (others : Balanced rest) :
      Balanced (.openParenthesis :: (inner ++ .closeParenthesis :: rest))
  | brackets {inner rest : List Lexeme} (within : Balanced inner) (others : Balanced rest) :
      Balanced (.openBracket :: (inner ++ .closeBracket :: rest))

namespace Balanced

variable {first others : List Lexeme} {lexeme : Lexeme}

theorem append (left : Balanced first) (right : Balanced others) : Balanced (first ++ others) := by
  induction left with
  | nil => exact right
  | plain plain _ ih => exact .plain plain ih
  | parentheses within _ _ ih => simpa using within.parentheses ih
  | brackets within _ _ ih => simpa using within.brackets ih

theorem snoc (left : Balanced first) (plain : lexeme.isBracket = false) : Balanced (first ++ [lexeme]) :=
  left.append (.plain plain .nil)

theorem enclosed (left : Balanced first) (within : Balanced others) :
    Balanced (first ++ [.openParenthesis] ++ (others ++ [.closeParenthesis])) := by
  simpa using left.append (within.parentheses .nil)

theorem bracketed (left : Balanced first) (within : Balanced others) :
    Balanced (first ++ [.openBracket] ++ (others ++ [.closeBracket])) := by
  simpa using left.append (within.brackets .nil)

end Balanced

namespace Tokens

variable {tokens between rest : Tokens} {taken others : List Lexeme} {lexemes : Lexeme → Prop}

/-- What holds of every token before the end. -/
def All (holds : Lexeme → Prop) : Tokens → Prop
  | .cons token rest => holds token.lexeme ∧ rest.All holds
  | _ => True

theorem all_trivial (tokens : Tokens) : tokens.All fun _ => True := by
  induction tokens with
  | cons token rest ih => exact ⟨trivial, ih⟩
  | _ => trivial

/-- The faults that these tokens may lead to: one at a token, one at the end of the text, or the one that
breaks the text off. -/
inductive Blames : Tokens → ParseFault → Prop
  | finish {position : Nat} {fault : ParseFault} (here : fault.At ⟨.endOfText, position⟩) :
      Blames (.finish position) fault
  | broken (fault : ParseFault) : Blames (.broken fault) fault
  | here {token : Token} {rest : Tokens} {fault : ParseFault} (here : fault.At token) :
      Blames (.cons token rest) fault
  | later {token : Token} {rest : Tokens} {fault : ParseFault} (later : Blames rest fault) :
      Blames (.cons token rest) fault

theorem Blames.lay {fault : ParseFault} (blames : rest.Blames fault) (first : List Token) :
    (Tokens.lay first rest).Blames fault := by
  induction first with
  | nil => exact blames
  | cons token first ih => exact .later ih

theorem blames_head (whole : tokens.Whole) {fault : ParseFault} (here : fault.At tokens.head) :
    tokens.Blames fault := by
  cases tokens with
  | finish position => exact .finish here
  | broken fault => cases whole
  | cons token rest => exact .here here

/-- Some way into the tokens: what was taken so far, and what is left. -/
structure Reached (lexemes : Lexeme → Prop) (tokens : Tokens) (taken : List Lexeme) (rest : Tokens) : Prop where
  spans : ∃ first : List Token, first.map Token.lexeme = taken ∧ tokens = lay first rest
  whole : rest.Whole
  all : rest.All lexemes

theorem Reached.start (whole : tokens.Whole) (all : tokens.All lexemes) : Reached lexemes tokens [] tokens :=
  ⟨⟨[], rfl, rfl⟩, whole, all⟩

theorem Reached.trans (first : Reached lexemes tokens taken between)
    (second : Reached lexemes between others rest) : Reached lexemes tokens (taken ++ others) rest := by
  obtain ⟨⟨one, rfl, rfl⟩, -, -⟩ := first
  obtain ⟨⟨two, rfl, rfl⟩, whole, all⟩ := second
  exact ⟨⟨one ++ two, List.map_append, (lay_append one two rest).symm⟩, whole, all⟩

theorem size_lay (first : List Token) (rest : Tokens) : (lay first rest).size = first.length + rest.size := by
  induction first with
  | nil => simp [lay]
  | cons token first ih =>
      rw [lay_cons, size, ih, List.length_cons]
      omega

theorem Reached.size (reached : Reached lexemes tokens taken rest) : tokens.size = taken.length + rest.size := by
  obtain ⟨⟨first, rfl, rfl⟩, -, -⟩ := reached
  rw [size_lay, List.length_map]

theorem Reached.shorter (reached : Reached lexemes tokens taken rest) (filled : taken ≠ []) :
    rest.size < tokens.size := by
  have size := reached.size
  have taken := List.length_pos_iff.mpr filled
  omega

theorem Reached.blames (reached : Reached lexemes tokens taken rest) {fault : ParseFault}
    (blames : rest.Blames fault) : tokens.Blames fault := by
  obtain ⟨⟨first, -, rfl⟩, -, -⟩ := reached
  exact blames.lay first

end Tokens

/-- Operators that take the values of both sides. -/
def strictSymbols : List Text :=
  Level.comparison.symbols ++ Level.sum.symbols ++ Level.product.symbols ++
    [Text.ofString "^", Term.indexSymbol]

/-- Operators whose right side may stay unevaluated. -/
def lazySymbols : List Text := Level.disjunction.symbols ++ Level.conjunction.symbols

/-- Properties of terms that hold of whatever the grammar of a dialect builds from tokens with a
property. -/
structure Closed (dialect : Dialect) (lexemes : Lexeme → Prop) (terms : Term → Prop) : Prop where
  name : ∀ name, terms (.name name)
  number : ∀ value, lexemes (.number value) → terms (.literal value)
  text : ∀ content, terms (.literal (.text content))
  unary : ∀ symbol operand, lexemes (.operator symbol) → terms operand → terms (.unary symbol operand)
  binary : ∀ symbol left right, symbol ∈ strictSymbols → lexemes (.operator symbol) → terms left →
    terms right → terms (.binary symbol left right)
  index : ∀ object index, lexemes .openBracket → terms object → terms index →
    terms (.binary Term.indexSymbol object index)
  shortCircuit : ∀ symbol left right, symbol ∈ lazySymbols → lexemes (.operator symbol) → terms left →
    terms right → terms (.shortCircuit symbol left right)
  conditional : ∀ condition yes no, lexemes (.operator Term.conditionSymbol) → terms condition → terms yes →
    terms no → terms (.conditional condition yes no)
  assign : ∀ target value, lexemes (.operator Term.assignSymbol) → terms value → terms (.assign target value)
  assignMember : ∀ object key value, lexemes (.operator Term.assignSymbol) → terms (.member object key) →
    terms value → terms (.assignMember object key value)
  define : ∀ function parameters body, lexemes (.operator Term.assignSymbol) →
    dialect.enables (Text.ofString "()=") = true → terms body → terms (.define function parameters body)
  call : ∀ callee arguments, terms callee → (∀ argument ∈ arguments, terms argument) →
    terms (.call callee arguments)
  member : ∀ object key, dialect.options.memberAccess = true → terms object → terms (.member object key)
  array : ∀ items, lexemes .openBracket → (∀ item ∈ items, terms item) → terms (.array items)
  statement : ∀ body, terms body → terms (.statement body)
  sequence : ∀ first rest, terms first → terms rest → terms (.sequence first rest)

theorem closed_trivial {dialect : Dialect} : Closed dialect (fun _ => True) fun _ => True := by
  constructor <;> intros <;> trivial

namespace Goal

/-- What was read so far on the way to a goal has the property. -/
def Good (lexemes : Lexeme → Prop) (terms : Term → Prop) : Goal → Prop
  | .chainRest _ term | .factorials term | .calls term | .steps term => terms term
  | .items (.call callee) done => terms callee ∧ ∀ item ∈ done, terms item
  | .items .array done => lexemes .openBracket ∧ ∀ item ∈ done, terms item
  | _ => True

/-- The tokens that are taken on the way to a goal: all brackets are closed in them, but for the one that
closes a list of items. Goals that go on from a term may take none. -/
def Forms : Goal → List Lexeme → Prop
  | .items shape _, taken => ∃ inner, Balanced inner ∧ taken = inner ++ [shape.closer]
  | .chainRest _ _, taken | .factorials _, taken | .calls _, taken | .steps _, taken => Balanced taken
  | _, taken => Balanced taken ∧ taken ≠ []

theorem forms_operand {level : Level} {taken : List Lexeme} :
    level.operand.Forms taken ↔ Balanced taken ∧ taken ≠ [] := by
  cases level <;> rfl

theorem good_operand (level : Level) {lexemes : Lexeme → Prop} {terms : Term → Prop} :
    level.operand.Good lexemes terms := by
  cases level <;> trivial

/-- What reading towards a goal gives: a good term, for a stretch of the tokens. -/
def Met (goal : Goal) (lexemes : Lexeme → Prop) (terms : Term → Prop) (tokens : Tokens)
    (result : Term × Tokens) : Prop :=
  terms result.1 ∧ ∃ taken, goal.Forms taken ∧ tokens.Reached lexemes taken result.2

end Goal

namespace Grammar

open Parse

/-! What passes the tests of the parser. -/

section

variable {lexeme : Lexeme}

theorem eq_of_isOperator {symbol : String} (passes : isOperator symbol lexeme = true) :
    lexeme = .operator (Text.ofString symbol) := by
  cases lexeme <;> simp_all [isOperator]

theorem eq_of_isPrefixOperator {dialect : Dialect} (passes : isPrefixOperator dialect lexeme = true) :
    lexeme = .operator (symbolOf lexeme) := by
  cases lexeme <;> first | rfl | cases passes

/-- The symbol of an operator token is the one that the token was tested for. -/
theorem eq_of_symbols {symbols : List Text} (passes : symbols.any (lexeme.isOperator ·) = true) :
    lexeme = .operator (symbolOf lexeme) ∧ symbolOf lexeme ∈ symbols := by
  obtain ⟨symbol, member, same⟩ := List.any_eq_true.mp passes
  cases lexeme with
  | operator found =>
      have equal : found = symbol := of_decide_eq_true same
      exact ⟨rfl, equal ▸ member⟩
  | _ => cases same

theorem eq_of_isSemicolon (passes : isSemicolon lexeme = true) : lexeme = .semicolon := by
  cases lexeme <;> first | rfl | cases passes

theorem eq_of_isComma (passes : isComma lexeme = true) : lexeme = .comma := by
  cases lexeme <;> first | rfl | cases passes

theorem eq_of_isOpenParenthesis (passes : isOpenParenthesis lexeme = true) : lexeme = .openParenthesis := by
  cases lexeme <;> first | rfl | cases passes

theorem eq_of_isCloseParenthesis (passes : isCloseParenthesis lexeme = true) : lexeme = .closeParenthesis := by
  cases lexeme <;> first | rfl | cases passes

theorem eq_of_isOpenBracket (passes : isOpenBracket lexeme = true) : lexeme = .openBracket := by
  cases lexeme <;> first | rfl | cases passes

theorem eq_of_isCloseBracket (passes : isCloseBracket lexeme = true) : lexeme = .closeBracket := by
  cases lexeme <;> first | rfl | cases passes

theorem eq_of_isCloser {shape : ListShape} (passes : isCloser shape lexeme = true) : lexeme = shape.closer := by
  cases shape with
  | call callee => exact eq_of_isCloseParenthesis passes
  | array => exact eq_of_isCloseBracket passes

theorem plain_of_memberName (passes : (memberName? lexeme).isSome = true) : lexeme.isBracket = false := by
  cases lexeme <;> first | rfl | cases passes

end

variable {dialect : Dialect} {lexemes : Lexeme → Prop} {terms : Term → Prop} {tokens rest : Tokens}
  {taken : List Lexeme}

/-! Taking tokens, some way into them. -/

/-- A token before others is taken, unless the text breaks off after it. -/
theorem ends_settle {between : Tokens} {token : Token}
    (reached : tokens.Reached lexemes taken (.cons token between)) :
    Ends (fun after => tokens.Reached lexemes (taken ++ [token.lexeme]) after) tokens.Blames
      (settle between) := by
  have next : between.Whole → (Tokens.cons token between).Reached lexemes [token.lexeme] between :=
    fun whole => ⟨⟨[token], rfl, rfl⟩, whole, reached.all.2⟩
  cases between with
  | finish position => exact ends_pure (reached.trans (next rfl))
  | broken fault => exact ends_throw (reached.blames (.later (.broken fault)))
  | cons other rest => exact ends_pure (reached.trans (next rfl))

/-- What a test of the next token lets through passes it, and may be blamed later. -/
theorem ends_accept (test : Lexeme → Bool) (reached : tokens.Reached lexemes taken rest) :
    Ends (fun found => ∀ token after, found = some (token, after) →
      test token.lexeme = true ∧ lexemes token.lexeme ∧
        tokens.Reached lexemes (taken ++ [token.lexeme]) after ∧
        ∀ fault : ParseFault, fault.At token → tokens.Blames fault) tokens.Blames (accept test rest) := by
  cases rest with
  | cons token between =>
      unfold accept
      simp only
      split
      · rename_i passes
        refine ends_bind (ends_settle reached) fun after reachedAfter => ends_pure ?_
        rintro _ _ ⟨⟩
        exact ⟨passes, reached.all.1, reachedAfter, fun fault here => reached.blames (.here here)⟩
      · exact ends_pure nofun
  | _ => exact ends_pure nofun

theorem ends_fail {α : Type} {post : α → Prop} {cause : ParseCause} {token : Token}
    (syntactic : ∀ position, ParseFault.isLexical { cause, position } = false)
    (blames : ∀ fault : ParseFault, fault.At token → tokens.Blames fault) :
    Ends post tokens.Blames (fail cause token) :=
  ends_throw (blames _ ⟨syntactic token.position, rfl, rfl⟩)

theorem ends_failHere {α : Type} {post : α → Prop} {cause : ParseCause}
    (syntactic : ∀ position, ParseFault.isLexical { cause, position } = false)
    (reached : tokens.Reached lexemes taken rest) :
    Ends post tokens.Blames (fail cause rest.head) :=
  ends_fail syntactic fun _ here => reached.blames (Tokens.blames_head reached.whole here)

theorem ends_expect (what : Text) (test : Lexeme → Bool) (reached : tokens.Reached lexemes taken rest) :
    Ends (fun after => ∃ lexeme, test lexeme = true ∧ tokens.Reached lexemes (taken ++ [lexeme]) after)
      tokens.Blames (expect what test rest) := by
  refine ends_bind (ends_accept test reached) fun found passed => ?_
  cases found with
  | none => exact ends_failHere (fun _ => rfl) reached
  | some pair =>
      obtain ⟨passes, -, after, -⟩ := passed pair.1 pair.2 rfl
      exact ends_pure ⟨_, passes, after⟩

/-- A reader that comes to an end wherever a bound on the depth is enough: with a good term, if the tokens
are good. -/
def Sound (lexemes : Lexeme → Prop) (terms : Term → Prop) (depth : Nat) (read : Reader) : Prop :=
  ∀ (goal : Goal) (tokens : Tokens), goal.rank + 16 * tokens.size ≤ depth → goal.Good lexemes terms →
    tokens.Whole → tokens.All lexemes → Ends (goal.Met lexemes terms tokens) tokens.Blames (read goal tokens)

variable {read : Reader} {depth : Nat}

/-- Reading goes on some way into the tokens. -/
theorem ends_read (sound : Sound lexemes terms depth read) (goal : Goal)
    (reached : tokens.Reached lexemes taken rest) (enough : goal.rank + 16 * rest.size ≤ depth)
    (good : goal.Good lexemes terms) :
    Ends (fun result => terms result.1 ∧ ∃ more, goal.Forms more ∧
      tokens.Reached lexemes (taken ++ more) result.2) tokens.Blames (read goal rest) :=
  (sound goal rest enough good reached.whole reached.all).weaken
    (fun _ ⟨term, more, forms, onward⟩ => ⟨term, more, forms, reached.trans onward⟩)
    (fun _ blames => reached.blames blames)

/-- The last reading on the way to a goal. -/
theorem ends_last (sound : Sound lexemes terms depth read) {goal last : Goal}
    (reached : tokens.Reached lexemes taken rest) (enough : last.rank + 16 * rest.size ≤ depth)
    (good : last.Good lexemes terms) (forms : ∀ more, last.Forms more → goal.Forms (taken ++ more)) :
    Ends (goal.Met lexemes terms tokens) tokens.Blames (read last rest) :=
  (ends_read sound last reached enough good).weaken
    (fun _ ⟨term, more, formed, onward⟩ => ⟨term, _, forms more formed, onward⟩) fun _ blames => blames

variable (closed : Closed dialect lexemes terms) (sound : Sound lexemes terms depth read)

include closed sound

/-- An assignment to what was read, after its sign. -/
theorem ends_assignTo {target : Term} (known : terms target) {sign : Token}
    (assigns : sign.lexeme = .operator Term.assignSymbol) (allowed : lexemes sign.lexeme)
    (blames : ∀ fault : ParseFault, fault.At sign → tokens.Blames fault)
    (reached : tokens.Reached lexemes taken rest) (enough : 13 + 16 * rest.size ≤ depth) :
    Ends (fun result => terms result.1 ∧ ∃ more, Balanced more ∧
      tokens.Reached lexemes (taken ++ more) result.2) tokens.Blames
      (assignTo dialect read target sign rest) := by
  rw [assigns] at allowed
  have value := ends_read sound .assignment reached enough trivial
  unfold assignTo
  split
  · split
    · rename_i enabled
      split
      · exact ends_bind value fun result ⟨good, more, forms, after⟩ =>
          ends_pure ⟨closed.define _ _ _ allowed enabled good, more, forms.1, after⟩
      · exact ends_fail (fun _ => rfl) blames
    · exact ends_fail (fun _ => rfl) blames
  · exact ends_bind value fun result ⟨good, more, forms, after⟩ =>
      ends_pure ⟨closed.assign _ _ allowed good, more, forms.1, after⟩
  · exact ends_bind value fun result ⟨good, more, forms, after⟩ =>
      ends_pure ⟨closed.assignMember _ _ _ allowed known good, more, forms.1, after⟩
  · exact ends_fail (fun _ => rfl) blames

theorem ends_readFactor (start : tokens.Reached lexemes [] tokens) (enough : 6 + 16 * tokens.size ≤ depth + 1) :
    Ends (Goal.factor.Met lexemes terms tokens) tokens.Blames (readFactor dialect read tokens) := by
  have power := ends_read sound .power start (by simp only [Goal.rank]; omega) trivial
  have atom := ends_read sound .atom start (by simp only [Goal.rank]; omega) trivial
  unfold readFactor
  refine ends_bind (ends_accept _ start) fun found passed => ?_
  cases found with
  | none => exact power
  | some pair =>
      obtain ⟨passes, allowed, after, -⟩ := passed pair.1 pair.2 rfl
      have operator := eq_of_isPrefixOperator passes
      simp only
      split
      · exact power
      · split
        · exact atom
        · have shorter := after.shorter (by simp)
          have operand := ends_read sound .factor after (by simp only [Goal.rank]; omega) trivial
          refine ends_bind operand fun result ⟨good, more, forms, last⟩ => ends_pure ⟨?_, _, ⟨?_, ?_⟩, last⟩
          · exact closed.unary _ _ (operator ▸ allowed) good
          · exact (Balanced.nil.snoc (by rw [operator]; rfl)).append forms.1
          · simp

theorem ends_readSteps {object : Term} (known : terms object) (start : tokens.Reached lexemes [] tokens)
    (enough : 1 + 16 * tokens.size ≤ depth + 1) :
    Ends ((Goal.steps object).Met lexemes terms tokens) tokens.Blames (readSteps dialect read object tokens) := by
  unfold readSteps
  refine ends_bind (ends_accept _ start) fun found passed => ?_
  cases found with
  | some point =>
      obtain ⟨isPoint, -, afterPoint, blames⟩ := passed point.1 point.2 rfl
      rw [eq_of_isOperator isPoint] at afterPoint
      simp only
      split
      · rename_i allowed
        refine ends_bind (ends_accept _ afterPoint) fun found passed => ?_
        cases found with
        | none => exact ends_failHere (fun _ => rfl) afterPoint
        | some name =>
            obtain ⟨isName, -, afterName, -⟩ := passed name.1 name.2 rfl
            have shorter := afterName.shorter (by simp)
            exact ends_last sound afterName (by simp only [Goal.rank]; omega) (closed.member _ _ allowed known)
              fun _ forms => ((Balanced.nil.snoc rfl).snoc (plain_of_memberName isName)).append forms
      · exact ends_fail (fun _ => rfl) blames
  | none =>
      refine ends_bind (ends_accept _ start) fun found passed => ?_
      cases found with
      | none => exact ends_pure ⟨known, [], .nil, start⟩
      | some bracket =>
          obtain ⟨isBracket, allowed, afterBracket, blames⟩ := passed bracket.1 bracket.2 rfl
          rw [eq_of_isOpenBracket isBracket] at allowed afterBracket
          simp only
          split
          · have shorter := afterBracket.shorter (by simp)
            refine ends_bind (ends_read sound .expression afterBracket
              (by simp only [Goal.rank]; omega) trivial) fun index ⟨good, more, forms, after⟩ => ?_
            refine ends_bind (ends_expect _ _ after) fun rest ⟨closing, isClosing, onward⟩ => ?_
            rw [eq_of_isCloseBracket isClosing, List.append_assoc] at onward
            have shorter := onward.shorter (by simp)
            exact ends_last sound onward (by simp only [Goal.rank]; omega) (closed.index _ _ allowed known good)
              fun _ others => (Balanced.nil.bracketed forms.1).append others
          · exact ends_fail (fun _ => rfl) blames

theorem ends_readAtom (start : tokens.Reached lexemes [] tokens) (enough : 1 + 16 * tokens.size ≤ depth + 1) :
    Ends (Goal.atom.Met lexemes terms tokens) tokens.Blames (readAtom dialect read tokens) := by
  unfold readAtom
  split
  · rename_i token rest
    obtain ⟨lexeme, position⟩ := token
    have settled := ends_settle start
    have here {cause : ParseCause} (syntactic : ∀ position, ParseFault.isLexical { cause, position } = false) :
        Ends (Goal.atom.Met lexemes terms (.cons ⟨lexeme, position⟩ rest))
          (Tokens.cons ⟨lexeme, position⟩ rest).Blames (fail cause ⟨lexeme, position⟩) :=
      ends_fail syntactic fun _ => .here
    split
    · rename_i same
      cases same
      exact ends_bind settled fun after reached =>
        ends_pure ⟨closed.name _, _, ⟨Balanced.nil.snoc rfl, nofun⟩, reached⟩
    · rename_i same
      cases same
      split
      · exact ends_bind settled fun after reached =>
          ends_pure ⟨closed.name _, _, ⟨Balanced.nil.snoc rfl, nofun⟩, reached⟩
      · exact here fun _ => rfl
    · rename_i same
      cases same
      exact ends_bind settled fun after reached =>
        ends_pure ⟨closed.number _ start.all.1, _, ⟨Balanced.nil.snoc rfl, nofun⟩, reached⟩
    · rename_i same
      cases same
      exact ends_bind settled fun after reached =>
        ends_pure ⟨closed.text _, _, ⟨Balanced.nil.snoc rfl, nofun⟩, reached⟩
    · rename_i same
      cases same
      refine ends_bind settled fun after reached => ?_
      have shorter := reached.shorter (by simp)
      refine ends_bind (ends_read sound .expression reached (by simp only [Goal.rank]; omega) trivial)
        fun inner ⟨good, more, forms, last⟩ => ?_
      refine ends_bind (ends_expect _ _ last) fun rest ⟨closing, isClosing, final⟩ => ?_
      rw [eq_of_isCloseParenthesis isClosing, List.append_assoc] at final
      exact ends_pure ⟨good, _, ⟨Balanced.nil.enclosed forms.1, nofun⟩, final⟩
    · rename_i same
      cases same
      refine ends_bind settled fun after reached => ?_
      have shorter := reached.shorter (by simp)
      refine ends_bind (ends_accept _ reached) fun found passed => ?_
      cases found with
      | some pair =>
          obtain ⟨isClosing, -, final, -⟩ := passed pair.1 pair.2 rfl
          rw [eq_of_isCloseBracket isClosing] at final
          exact ends_pure ⟨closed.array [] start.all.1 nofun, _, ⟨Balanced.nil.bracketed .nil, nofun⟩, final⟩
      | none =>
          refine ends_last sound reached (by simp only [Goal.rank]; omega) ⟨start.all.1, nofun⟩ ?_
          rintro _ ⟨inner, balanced, rfl⟩
          exact ⟨Balanced.nil.bracketed balanced, nofun⟩
    · exact here fun _ => rfl
  · exact ends_failHere (fun _ => rfl) start

theorem ends_items {shape : ListShape} {done : List Term} (known : (Goal.items shape done).Good lexemes terms)
    (start : tokens.Reached lexemes [] tokens) (enough : 15 + 16 * tokens.size ≤ depth + 1) :
    Ends ((Goal.items shape done).Met lexemes terms tokens) tokens.Blames
      (step dialect read (.items shape done) tokens) := by
  refine ends_bind (ends_read sound .expression start (by simp only [Goal.rank]; omega) trivial)
    fun item ⟨good, more, ⟨balanced, filled⟩, after⟩ => ?_
  have items : ∀ other ∈ done ++ [item.1], terms other := by
    have before : ∀ other ∈ done, terms other := by
      cases shape with
      | call callee => exact known.2
      | array => exact known.2
    intro other member
    rcases List.mem_append.mp member with old | new
    · exact before other old
    · exact List.mem_singleton.mp new ▸ good
  refine ends_bind (ends_accept _ after) fun found passed => ?_
  cases found with
  | some pair =>
      obtain ⟨isComma, -, onward, -⟩ := passed pair.1 pair.2 rfl
      rw [eq_of_isComma isComma] at onward
      have shorter := onward.shorter (by simp)
      have next : (Goal.items shape (done ++ [item.1])).Good lexemes terms := by
        cases shape with
        | call callee => exact ⟨known.1, items⟩
        | array => exact ⟨known.1, items⟩
      refine ends_last sound onward (by simp only [Goal.rank]; omega) next ?_
      rintro _ ⟨inner, others, rfl⟩
      exact ⟨_, (balanced.snoc rfl).append others, (List.append_assoc _ _ _).symm⟩
  | none =>
      refine ends_bind (ends_expect _ _ after) fun rest ⟨closing, isClosing, final⟩ => ?_
      rw [eq_of_isCloser isClosing] at final
      refine ends_pure ⟨?_, _, ⟨more, balanced, rfl⟩, final⟩
      cases shape with
      | call callee => exact closed.call _ _ known.1 items
      | array => exact closed.array _ known.1 items

omit sound in
theorem good_chain {level : Level} {symbol : Text} (listed : symbol ∈ level.symbols)
    (allowed : lexemes (.operator symbol)) {left right : Term} (goodLeft : terms left) (goodRight : terms right) :
    terms (level.build symbol left right) := by
  cases level with
  | disjunction =>
      exact closed.shortCircuit _ _ _ (List.mem_append_left _ listed) allowed goodLeft goodRight
  | conjunction =>
      exact closed.shortCircuit _ _ _ (List.mem_append_right _ listed) allowed goodLeft goodRight
  | comparison => exact closed.binary _ _ _ (by simp [strictSymbols, listed]) allowed goodLeft goodRight
  | sum => exact closed.binary _ _ _ (by simp [strictSymbols, listed]) allowed goodLeft goodRight
  | product => exact closed.binary _ _ _ (by simp [strictSymbols, listed]) allowed goodLeft goodRight

/-- One step of the parser comes to an end if the further goals do. -/
theorem sound_step : Sound lexemes terms (depth + 1) (step dialect read) := by
  intro goal tokens enough known whole all
  have start := Tokens.Reached.start whole all
  cases goal with
  | expression =>
      simp only [Goal.rank] at enough
      refine ends_bind (ends_read sound .assignment start (by simp only [Goal.rank]; omega) trivial)
        fun first ⟨good, more, ⟨balanced, filled⟩, after⟩ => ?_
      refine ends_bind (ends_accept _ after) fun found passed => ?_
      cases found with
      | none => exact ends_pure ⟨good, more, ⟨balanced, filled⟩, after⟩
      | some pair =>
          obtain ⟨isSemicolon, -, onward, -⟩ := passed pair.1 pair.2 rfl
          rw [eq_of_isSemicolon isSemicolon] at onward
          have shorter := onward.shorter (by simp)
          have before : Balanced (more ++ [.semicolon]) := balanced.snoc rfl
          simp only
          split
          · exact ends_pure ⟨closed.statement _ good, _, ⟨before, by simp⟩, onward⟩
          · refine ends_bind (ends_read sound .expression onward (by simp only [Goal.rank]; omega)
              trivial) fun rest ⟨goodRest, others, ⟨balancedRest, _⟩, last⟩ => ?_
            exact ends_pure ⟨closed.sequence _ _ good goodRest, _, ⟨before.append balancedRest, by simp⟩, last⟩
  | assignment =>
      simp only [Goal.rank] at enough
      refine ends_bind (ends_read sound .conditional start (by simp only [Goal.rank]; omega) trivial)
        fun target ⟨good, more, ⟨balanced, filled⟩, after⟩ => ?_
      refine ends_bind (ends_accept _ after) fun found passed => ?_
      cases found with
      | none => exact ends_pure ⟨good, more, ⟨balanced, filled⟩, after⟩
      | some pair =>
          obtain ⟨isSign, allowed, onward, blames⟩ := passed pair.1 pair.2 rfl
          have sign := eq_of_isOperator isSign
          have shorter := onward.shorter (by simp)
          rw [sign] at onward
          refine (ends_assignTo closed sound good sign allowed blames onward (by omega)).weaken ?_
            fun _ blames => blames
          rintro result ⟨good, others, balancedRest, last⟩
          exact ⟨good, _, ⟨(balanced.snoc rfl).append balancedRest, by simp⟩, last⟩
  | conditional =>
      simp only [Goal.rank] at enough
      refine ends_bind (ends_read sound (.chain .disjunction) start
        (by simp only [Goal.rank, Level.height]; omega) trivial)
        fun condition ⟨good, more, ⟨balanced, filled⟩, after⟩ => ?_
      refine ends_bind (ends_accept _ after) fun found passed => ?_
      cases found with
      | none => exact ends_pure ⟨good, more, ⟨balanced, filled⟩, after⟩
      | some pair =>
          obtain ⟨isQuestion, allowed, asked, -⟩ := passed pair.1 pair.2 rfl
          rw [eq_of_isOperator isQuestion] at allowed asked
          have shorter := asked.shorter (by simp)
          refine ends_bind (ends_read sound .conditional asked (by simp only [Goal.rank]; omega)
            trivial) fun yes ⟨goodYes, first, ⟨balancedYes, _⟩, afterYes⟩ => ?_
          refine ends_bind (ends_expect _ _ afterYes) fun between ⟨colon, isColon, parted⟩ => ?_
          rw [eq_of_isOperator isColon] at parted
          have shorter := parted.shorter (by simp)
          refine ends_bind (ends_read sound .conditional parted (by simp only [Goal.rank]; omega)
            trivial) fun no ⟨goodNo, second, ⟨balancedNo, _⟩, last⟩ => ?_
          refine ends_pure ⟨closed.conditional _ _ _ allowed good goodYes goodNo, _, ⟨?_, by simp⟩, last⟩
          exact (((balanced.snoc rfl).append balancedYes).snoc rfl).append balancedNo
  | chain level =>
      simp only [Goal.rank] at enough
      refine ends_bind (ends_read sound level.operand start (by rw [Goal.rank_operand]; omega)
        (Goal.good_operand level)) fun left ⟨good, more, forms, after⟩ => ?_
      obtain ⟨balanced, filled⟩ := Goal.forms_operand.mp forms
      have shorter := after.shorter filled
      exact ends_last sound after (by simp only [Goal.rank]; omega) good
        fun _ others => ⟨balanced.append others, by simp [filled]⟩
  | chainRest level left =>
      simp only [Goal.rank] at enough
      have height : level.height ≤ 4 := by cases level <;> decide
      refine ends_bind (ends_accept _ start) fun found passed => ?_
      cases found with
      | none => exact ends_pure ⟨known, [], .nil, start⟩
      | some pair =>
          obtain ⟨passes, allowed, onward, -⟩ := passed pair.1 pair.2 rfl
          obtain ⟨operator, listed⟩ := eq_of_symbols passes
          have plain : pair.1.lexeme.isBracket = false := by
            rw [operator]
            rfl
          have shorter := onward.shorter (by simp)
          refine ends_bind (ends_read sound level.operand onward (by rw [Goal.rank_operand]; omega)
            (Goal.good_operand level)) fun right ⟨good, more, forms, after⟩ => ?_
          obtain ⟨balanced, _⟩ := Goal.forms_operand.mp forms
          have shorter := after.shorter (by simp)
          exact ends_last sound after (by simp only [Goal.rank]; omega)
            (good_chain closed listed (operator ▸ allowed) known good)
            fun _ others => ((Balanced.nil.snoc plain).append balanced).append others
  | factor => exact ends_readFactor closed sound start enough
  | power =>
      simp only [Goal.rank] at enough
      refine ends_bind (ends_read sound .suffixed start (by simp only [Goal.rank]; omega) trivial)
        fun base ⟨good, more, ⟨balanced, filled⟩, after⟩ => ?_
      refine ends_bind (ends_accept _ after) fun found passed => ?_
      cases found with
      | none => exact ends_pure ⟨good, more, ⟨balanced, filled⟩, after⟩
      | some pair =>
          obtain ⟨isPower, allowed, onward, -⟩ := passed pair.1 pair.2 rfl
          rw [eq_of_isOperator isPower] at allowed onward
          have shorter := onward.shorter (by simp)
          refine ends_bind (ends_read sound .factor onward (by simp only [Goal.rank]; omega) trivial)
            fun exponent ⟨goodExponent, others, ⟨balancedRest, _⟩, last⟩ => ?_
          exact ends_pure ⟨closed.binary _ _ _ (by decide) allowed good goodExponent, _,
            ⟨(balanced.snoc rfl).append balancedRest, by simp⟩, last⟩
  | suffixed =>
      simp only [Goal.rank] at enough
      refine ends_bind (ends_read sound .application start (by simp only [Goal.rank]; omega) trivial)
        fun operand ⟨good, more, ⟨balanced, filled⟩, after⟩ => ?_
      have shorter := after.shorter filled
      exact ends_last sound after (by simp only [Goal.rank]; omega) good
        fun _ others => ⟨balanced.append others, by simp [filled]⟩
  | factorials operand =>
      simp only [Goal.rank] at enough
      refine ends_bind (ends_accept _ start) fun found passed => ?_
      cases found with
      | none => exact ends_pure ⟨known, [], .nil, start⟩
      | some pair =>
          obtain ⟨isFactorial, allowed, onward, -⟩ := passed pair.1 pair.2 rfl
          rw [eq_of_isOperator isFactorial] at allowed onward
          have shorter := onward.shorter (by simp)
          exact ends_last sound onward (by simp only [Goal.rank]; omega) (closed.unary _ _ allowed known)
            fun _ others => (Balanced.nil.snoc rfl).append others
  | application =>
      simp only [Goal.rank] at enough
      refine ends_bind (ends_accept _ start) fun found passed => ?_
      cases found with
      | some pair =>
          obtain ⟨passes, allowed, onward, -⟩ := passed pair.1 pair.2 rfl
          have operator := eq_of_isPrefixOperator passes
          have shorter := onward.shorter (by simp)
          refine ends_bind (ends_read sound .atom onward (by simp only [Goal.rank]; omega) trivial)
            fun operand ⟨good, others, ⟨balanced, _⟩, last⟩ => ?_
          refine ends_pure ⟨closed.unary _ _ (operator ▸ allowed) good, _, ⟨?_, by simp⟩, last⟩
          exact (Balanced.nil.snoc (by rw [operator]; rfl)).append balanced
      | none =>
          refine ends_bind (ends_read sound .access start (by simp only [Goal.rank]; omega) trivial)
            fun callee ⟨good, more, ⟨balanced, filled⟩, after⟩ => ?_
          have shorter := after.shorter filled
          exact ends_last sound after (by simp only [Goal.rank]; omega) good
            fun _ others => ⟨balanced.append others, by simp [filled]⟩
  | calls callee =>
      simp only [Goal.rank] at enough
      refine ends_bind (ends_accept _ start) fun found passed => ?_
      cases found with
      | none => exact ends_pure ⟨known, [], .nil, start⟩
      | some pair =>
          obtain ⟨isOpening, -, onward, -⟩ := passed pair.1 pair.2 rfl
          rw [eq_of_isOpenParenthesis isOpening] at onward
          have shorter := onward.shorter (by simp)
          refine ends_bind (ends_accept _ onward) fun found passed => ?_
          cases found with
          | some closer =>
              obtain ⟨isClosing, -, after, -⟩ := passed closer.1 closer.2 rfl
              rw [eq_of_isCloseParenthesis isClosing] at after
              have shorter := after.shorter (by simp)
              exact ends_last sound after (by simp only [Goal.rank]; omega) (closed.call _ [] known nofun)
                fun _ others => (Balanced.nil.enclosed .nil).append others
          | none =>
              refine ends_bind (ends_read sound (.items (.call callee) []) onward
                (by simp only [Goal.rank]; omega) ⟨known, nofun⟩)
                fun call ⟨good, _, ⟨inner, balanced, same⟩, after⟩ => ?_
              subst same
              have shorter := after.shorter (by simp)
              exact ends_last sound after (by simp only [Goal.rank]; omega) good
                fun _ others => (Balanced.nil.enclosed balanced).append others
  | access =>
      simp only [Goal.rank] at enough
      refine ends_bind (ends_read sound .atom start (by simp only [Goal.rank]; omega) trivial)
        fun object ⟨good, more, ⟨balanced, filled⟩, after⟩ => ?_
      have shorter := after.shorter filled
      exact ends_last sound after (by simp only [Goal.rank]; omega) good
        fun _ others => ⟨balanced.append others, by simp [filled]⟩
  | steps object => exact ends_readSteps closed sound known start enough
  | atom => exact ends_readAtom closed sound start enough
  | items shape done => exact ends_items closed sound known start enough

omit sound in
/-- The parser comes to an end at every depth that is enough. -/
theorem sound_read (depth : Nat) : Sound lexemes terms depth (Grammar.read dialect depth) := by
  induction depth with
  | zero => 
      intro goal tokens enough
      cases goal <;> simp [Goal.rank] at enough
  | succ depth ih => exact sound_step closed ih

omit sound in
theorem ends_readAll (all : tokens.All lexemes) : Ends terms tokens.Blames (readAll dialect tokens) := by
  have settled : Ends (fun after => after = tokens ∧ tokens.Whole) tokens.Blames (settle tokens) := by
    cases tokens with
    | broken fault => exact ends_throw (.broken fault)
    | _ => exact ends_pure ⟨rfl, rfl⟩
  refine ends_bind settled fun _ ⟨same, whole⟩ => ?_
  subst same
  have start := Tokens.Reached.start whole all
  refine ends_bind (ends_read (sound_read closed _) .expression start ?_ trivial)
    fun ⟨term, rest⟩ ⟨good, _, _, after⟩ => ?_
  · simp only [Goal.rank, depthFor]
    omega
  · cases rest with
    | finish position => exact ends_pure good
    | _ => exact ends_failHere (fun _ => rfl) after

end Grammar

variable {dialect : Dialect} {lexemes : Lexeme → Prop} {terms : Term → Prop} {source : Text}

/-- What a text is parsed to: a good term, if its tokens are good, or a fault at one of the tokens. -/
theorem parse_ends (closed : Closed dialect lexemes terms) (all : (Tokens.ofText dialect source).All lexemes) :
    (∃ term, (Grammar.readAll dialect (Tokens.ofText dialect source)).run = some (.ok term) ∧
      parse dialect source = .ok term ∧ terms term) ∨
    ∃ fault, (Grammar.readAll dialect (Tokens.ofText dialect source)).run = some (.error fault) ∧
      parse dialect source = .error (fault.locate source) ∧ (Tokens.ofText dialect source).Blames fault := by
  have ends := Grammar.ends_readAll closed all
  unfold Parse.Ends at ends
  unfold parse
  cases came : (Grammar.readAll dialect (Tokens.ofText dialect source)).run with
  | none => rw [came] at ends; exact ends.elim
  | some outcome =>
      rw [came] at ends
      cases outcome with
      | ok term => exact .inl ⟨term, rfl, by simp only [came]; rfl, ends⟩
      | error fault => exact .inr ⟨fault, rfl, by simp only [came]; rfl, ends⟩

/-- Every term that a source text denotes is good if its tokens are. -/
theorem good_parse (closed : Closed dialect lexemes terms) {term : Term}
    (all : (Tokens.ofText dialect source).All lexemes) (found : parse dialect source = .ok term) :
    terms term := by
  rcases parse_ends closed all with ⟨other, -, parsed, good⟩ | ⟨fault, -, failed, -⟩
  · rw [found] at parsed
    cases parsed
    exact good
  · rw [found] at failed
    cases failed

end Formula
