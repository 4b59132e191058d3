import Formula.Proofs.Source

/-!
What a text is parsed to stays so where the text goes on. If the tokens of an expression are followed by a
semicolon or by a closing parenthesis, the parser reads the same term and stops there, at every depth that is
enough.
-/

namespace Formula

/-- What may follow an expression: the end of the text, another statement, or the end of a parenthesis. -/
inductive Lexeme.Ends : Lexeme → Prop
  | endOfText : Ends .endOfText
  | semicolon : Ends .semicolon
  | closeParenthesis : Ends .closeParenthesis

/-- Tokens, and the same tokens with others where a text ended. -/
inductive Tokens.Continues (tail : Tokens) : Tokens → Tokens → Prop
  | finish (position : Nat) : Continues tail (.finish position) tail
  | cons {token other : Token} {rest others : Tokens} (same : token.lexeme = other.lexeme)
      (later : Continues tail rest others) : Continues tail (.cons token rest) (.cons other others)

section

variable {α β γ δ : Type} {needed : α → Prop} {results : α → β → Prop}

/-- Wherever the one reading comes to a result that is needed, the other comes to a like one. -/
def Carries (needed : α → Prop) (results : α → β → Prop) (reading : Parse α) (other : Parse β) : Prop :=
  ∀ one, reading.run = some (.ok one) → needed one → ∃ two, other.run = some (.ok two) ∧ results one two

theorem carries_pure {one : α} {two : β} (related : results one two) :
    Carries needed results (pure one) (pure two) := by
  rintro _ ⟨⟩ _
  exact ⟨two, rfl, related⟩

/-- What comes to no result that is needed carries over to anything. -/
theorem carries_never {reading : Parse α} (other : Parse β)
    (never : ∀ one, reading.run = some (.ok one) → ¬needed one) : Carries needed results reading other :=
  fun one came need => absurd need (never one came)

theorem carries_fail {cause : ParseCause} {token : Token} (other : Parse β) :
    Carries needed results (Grammar.fail cause token) other :=
  carries_never other nofun

theorem carries_cond {test same : Bool} (equal : test = same) {yes no : Parse α} {first second : Parse β}
    (ifYes : Carries needed results yes first) (ifNo : Carries needed results no second) :
    Carries needed results (if test then yes else no) (if same then first else second) := by
  subst equal
  split
  · exact ifYes
  · exact ifNo

/-- A sequence of two readings comes to a result only if both do. -/
theorem ok_of_bind {reading : Parse α} {next : α → Parse γ} {last : γ}
    (came : (reading >>= next).run = some (.ok last)) :
    ∃ one, reading.run = some (.ok one) ∧ (next one).run = some (.ok last) := by
  change (ExceptT.bind reading next : Option (Except ParseFault γ)) = _ at came
  simp only [ExceptT.bind, ExceptT.mk] at came
  cases first : reading with
  | none =>
      rw [first] at came
      cases came
  | some outcome =>
      rw [first] at came
      cases outcome with
      | error fault => cases came
      | ok one => exact ⟨one, rfl, came⟩

theorem carries_bind {asked : γ → Prop} {final : γ → δ → Prop} {reading : Parse α} {other : Parse β}
    {next : α → Parse γ} {follow : β → Parse δ} (first : Carries needed results reading other)
    (uses : ∀ one last, (next one).run = some (.ok last) → asked last → needed one)
    (follows : ∀ one two, results one two → Carries asked final (next one) (follow two)) :
    Carries asked final (reading >>= next) (other >>= follow) := by
  intro last came need
  obtain ⟨one, read, after⟩ := ok_of_bind came
  obtain ⟨two, gave, related⟩ := first one read (uses one last after need)
  obtain ⟨result, gone, same⟩ := follows one two related last after need
  refine ⟨result, ?_, same⟩
  have gave : other = pure two := gave
  rw [gave, pure_bind]
  exact gone

end

namespace Grammar

variable {tail rest others : Tokens}

/-- Two tokens with the same lexeme, and what is left after them. -/
abbrev Taken (tail : Tokens) (one two : Token × Tokens) : Prop :=
  one.1.lexeme = two.1.lexeme ∧ tail.Continues one.2 two.2

theorem whole_continues (whole : tail.Whole) (here : tail.Continues rest others) : rest.Whole ∧ others.Whole := by
  cases here with
  | finish position => exact ⟨rfl, whole⟩
  | cons same later => exact ⟨rfl, rfl⟩

theorem carries_settle (whole : tail.Whole) (here : tail.Continues rest others) :
    Carries (fun _ => True) tail.Continues (settle rest) (settle others) := by
  have settled : settle rest = pure rest := (whole_continues whole here).1
  have settledOther : settle others = pure others := (whole_continues whole here).2
  rw [settled, settledOther]
  exact carries_pure here

/-- A test before the end sees the same token. -/
theorem carries_acceptHere (whole : tail.Whole) (test : Lexeme → Bool) {token other : Token}
    (same : token.lexeme = other.lexeme) (later : tail.Continues rest others) :
    Carries (fun _ => True) (Option.Rel (Taken tail)) (accept test (.cons token rest))
      (accept test (.cons other others)) := by
  rw [accept, accept, same]
  split
  · exact carries_bind (carries_settle whole later) (fun _ _ _ _ => trivial) fun _ _ onward =>
      carries_pure (.some ⟨same, onward⟩)
  · exact carries_pure .none

/-- A test that nothing passes that may follow an expression. -/
theorem carries_accept (whole : tail.Whole) (ends : tail.head.lexeme.Ends) (test : Lexeme → Bool)
    (quiet : ∀ lexeme : Lexeme, lexeme.Ends → test lexeme = false) (here : tail.Continues rest others) :
    Carries (fun _ => True) (Option.Rel (Taken tail)) (accept test rest) (accept test others) := by
  cases here with
  | finish position =>
      rw [accept_none (quiet _ ends)]
      exact carries_pure .none
  | cons same later => exact carries_acceptHere whole test same later

theorem carries_expect (whole : tail.Whole) (what : Text) (test : Lexeme → Bool)
    (here : tail.Continues rest others) :
    Carries (fun _ => True) tail.Continues (expect what test rest) (expect what test others) := by
  cases here with
  | finish position => exact carries_fail _
  | cons same later =>
      refine carries_bind (carries_acceptHere whole test same later) (fun _ _ _ _ => trivial)
        fun found taken alike => ?_
      cases alike with
      | none => exact carries_fail _
      | some taken => exact carries_pure taken.2

/-- What a test says of the next token, if it says the same of all that may follow an expression. -/
theorem test_head (ends : tail.head.lexeme.Ends) (test : Lexeme → Bool)
    (alike : ∀ lexeme : Lexeme, lexeme.Ends → test lexeme = test .endOfText) (here : tail.Continues rest others) :
    test rest.head.lexeme = test others.head.lexeme := by
  cases here with
  | finish position => exact (alike _ ends).symm
  | cons same later => exact congrArg test same

/-! At the end of the tokens nothing is read that begins with a token. -/

/-- Goals that are reached by taking a token. -/
def Moves : Goal → Prop
  | .chainRest _ _ | .factorials _ | .calls _ | .steps _ => False
  | _ => True

theorem never_read (dialect : Dialect) (depth : Nat) {goal : Goal} (moves : Moves goal) (position : Nat)
    (result : Term × Tokens) : (read dialect depth goal (.finish position)).run ≠ some (.ok result) := by
  induction depth generalizing goal result with
  | zero => nofun
  | succ depth ih =>
      have first {α : Type} (other : Goal) (moves : Moves other) {next : Term × Tokens → Parse α} (last : α) :
          (read dialect depth other (.finish position) >>= next).run ≠ some (.ok last) := by
        intro came
        obtain ⟨one, read, -⟩ := ok_of_bind came
        exact ih moves one read
      cases goal with
      | expression => exact first .assignment trivial result
      | assignment => exact first .conditional trivial result
      | conditional => exact first (.chain .disjunction) trivial result
      | chain level => exact first level.operand (by cases level <;> trivial) result
      | factor => exact @ih .power trivial result
      | power => exact first .suffixed trivial result
      | suffixed => exact first .application trivial result
      | application => exact first .access trivial result
      | access => exact first .atom trivial result
      | atom => nofun
      | items shape done => exact first .expression trivial result
      | _ => exact moves.elim

/-! Reading on. -/

/-- An expression that ends with the tokens may go on where these do; all else is needed as it is. -/
def Needs : Goal → Term × Tokens → Prop
  | .expression, result => ∀ position, result.2 ≠ .finish position
  | _, _ => True

theorem needs_operand (level : Level) (result : Term × Tokens) : Needs level.operand result := by
  cases level <;> trivial

/-- The same term, with the same tokens left. -/
abbrev Onwards (tail : Tokens) (one two : Term × Tokens) : Prop := one.1 = two.1 ∧ tail.Continues one.2 two.2

/-- What is expected after an expression, it is needed as it is. -/
theorem needs_of_expect {what : Text} {test : Lexeme → Bool} {after last : Tokens}
    (came : (expect what test after).run = some (.ok last)) (position : Nat) : after ≠ .finish position := by
  rintro rfl
  cases came

section

variable (ends : tail.head.lexeme.Ends) (whole : tail.Whole) {dialect : Dialect} {depth deeper : Nat}
  (reads : ∀ (goal : Goal) {rest others : Tokens}, tail.Continues rest others →
    Carries (Needs goal) (Onwards tail) (read dialect depth goal rest) (read dialect deeper goal others))

include reads

theorem carries_assignTo {target : Term} {sign signed : Token} (here : tail.Continues rest others) :
    Carries (fun _ => True) (Onwards tail) (assignTo dialect (read dialect depth) target sign rest)
      (assignTo dialect (read dialect deeper) target signed others) := by
  have value (build : Term → Term) : Carries (fun _ => True) (Onwards tail)
      (read dialect depth .assignment rest >>= fun result => pure (build result.1, result.2))
      (read dialect deeper .assignment others >>= fun result => pure (build result.1, result.2)) :=
    carries_bind (reads .assignment here) (fun _ _ _ _ => trivial) fun _ _ ⟨equal, onward⟩ =>
      carries_pure ⟨congrArg build equal, onward⟩
  cases target with
  | call callee arguments =>
      unfold assignTo
      cases dialect.enables (Text.ofString "()=") with
      | false => exact carries_fail _
      | true =>
          cases came : signature? callee arguments with
          | none =>
              simp only [came, if_true]
              exact carries_fail _
          | some signature =>
              simp only [came, if_true]
              exact value (.define signature.1 signature.2)
  | name name => exact value (.assign name)
  | member object name => exact value (.assignMember object name)
  | _ => exact carries_fail _

include ends whole

theorem carries_readFactor (here : tail.Continues rest others) :
    Carries (fun _ => True) (Onwards tail) (readFactor dialect (read dialect depth) rest)
      (readFactor dialect (read dialect deeper) others) := by
  refine carries_bind (carries_accept whole ends _ (by rintro _ ⟨⟩ <;> rfl) here) (fun _ _ _ _ => trivial)
    fun found taken alike => ?_
  cases alike with
  | none => exact reads .power here
  | some both =>
      obtain ⟨same, later⟩ := both
      have opens := test_head ends isOpenParenthesis (by rintro _ ⟨⟩ <;> rfl) later
      have stops := test_head ends endsOperand (by rintro _ ⟨⟩ <;> rfl) later
      simp only [same, opens, stops]
      split
      · exact reads .power here
      · split
        · exact reads .atom here
        · exact carries_bind (reads .factor later) (fun _ _ _ _ => trivial) fun _ _ ⟨equal, onward⟩ =>
            carries_pure ⟨congrArg (Term.unary _) equal, onward⟩

theorem carries_readSteps {object : Term} (here : tail.Continues rest others) :
    Carries (fun _ => True) (Onwards tail) (readSteps dialect (read dialect depth) object rest)
      (readSteps dialect (read dialect deeper) object others) := by
  refine carries_bind (carries_accept whole ends _ (by rintro _ ⟨⟩ <;> rfl) here) (fun _ _ _ _ => trivial)
    fun found taken alike => ?_
  cases alike with
  | some both =>
      simp only
      split
      · refine carries_bind (carries_accept whole ends _ (by rintro _ ⟨⟩ <;> rfl) both.2) (fun _ _ _ _ => trivial)
          fun found taken alike => ?_
        cases alike with
        | none => exact carries_fail _
        | some named =>
            simp only [named.1]
            exact reads (.steps _) named.2
      · exact carries_fail _
  | none =>
      refine carries_bind (carries_accept whole ends _ (by rintro _ ⟨⟩ <;> rfl) here) (fun _ _ _ _ => trivial)
        fun found taken alike => ?_
      cases alike with
      | none => exact carries_pure ⟨rfl, here⟩
      | some both =>
          simp only
          split
          · refine carries_bind (reads .expression both.2) ?_ fun index _ ⟨equal, afterIndex⟩ => ?_
            · intro index last came _
              obtain ⟨after, expected, -⟩ := ok_of_bind came
              exact needs_of_expect expected
            · refine carries_bind (carries_expect whole _ _ afterIndex) (fun _ _ _ _ => trivial)
                fun _ _ onward => ?_
              simp only [equal]
              exact reads (.steps _) onward
          · exact carries_fail _

theorem carries_readAtom (here : tail.Continues rest others) :
    Carries (fun _ => True) (Onwards tail) (readAtom dialect (read dialect depth) rest)
      (readAtom dialect (read dialect deeper) others) := by
  cases here with
  | finish position => exact carries_fail _
  | @cons token other rest others same later =>
      obtain ⟨lexeme, position⟩ := token
      obtain ⟨_, place⟩ := other
      obtain rfl : lexeme = _ := same
      have settled := carries_settle whole later
      unfold readAtom
      cases lexeme with
      | name name => exact carries_bind settled (fun _ _ _ _ => trivial) fun _ _ onward => carries_pure ⟨rfl, onward⟩
      | operator symbol =>
          simp only
          split
          · exact carries_bind settled (fun _ _ _ _ => trivial) fun _ _ onward => carries_pure ⟨rfl, onward⟩
          · exact carries_fail _
      | number value => exact carries_bind settled (fun _ _ _ _ => trivial) fun _ _ onward => carries_pure ⟨rfl, onward⟩
      | text content => exact carries_bind settled (fun _ _ _ _ => trivial) fun _ _ onward => carries_pure ⟨rfl, onward⟩
      | openParenthesis =>
          refine carries_bind settled (fun _ _ _ _ => trivial) fun _ _ onward => ?_
          refine carries_bind (reads .expression onward) ?_ fun _ _ ⟨equal, inner⟩ => ?_
          · intro result last came _
            obtain ⟨after, expected, -⟩ := ok_of_bind came
            exact needs_of_expect expected
          · exact carries_bind (carries_expect whole _ _ inner) (fun _ _ _ _ => trivial) fun _ _ onward =>
              carries_pure ⟨equal, onward⟩
      | openBracket =>
          refine carries_bind settled (fun _ _ _ _ => trivial) fun _ _ onward => ?_
          refine carries_bind (carries_accept whole ends _ (by rintro _ ⟨⟩ <;> rfl) onward) (fun _ _ _ _ => trivial)
            fun found taken alike => ?_
          cases alike with
          | some closer => exact carries_pure ⟨rfl, closer.2⟩
          | none => exact reads (.items _ _) onward
      | _ => exact carries_fail _

theorem carries_expression (here : tail.Continues rest others) :
    Carries (Needs .expression) (Onwards tail) (step dialect (read dialect depth) .expression rest)
      (step dialect (read dialect deeper) .expression others) := by
  refine carries_bind (reads .assignment here) (fun _ _ _ _ => trivial)
    fun ⟨first, after⟩ ⟨second, behind⟩ ⟨equal, afterFirst⟩ => ?_
  obtain rfl : first = second := equal
  replace afterFirst : tail.Continues after behind := afterFirst
  cases afterFirst with
  | finish position =>
      refine carries_never _ fun one came need => ?_
      cases came
      exact need position rfl
  | cons same later =>
      refine carries_bind (carries_acceptHere whole _ same later) (fun _ _ _ _ => trivial) fun found taken alike => ?_
      cases alike with
      | none => exact carries_pure ⟨rfl, .cons same later⟩
      | @some one two both =>
          obtain ⟨token, after⟩ := one
          obtain ⟨other, behind⟩ := two
          obtain ⟨-, onward⟩ := both
          cases onward with
          | finish position =>
              refine carries_never _ fun one came need => ?_
              cases came
              exact need position rfl
          | cons sameNext afterNext =>
              have onward := Tokens.Continues.cons sameNext afterNext
              refine carries_cond (congrArg endsStatement sameNext) ?_ ?_
              · exact carries_pure ⟨rfl, onward⟩
              · refine carries_bind (reads .expression onward) ?_ fun _ _ ⟨equal, onward⟩ =>
                  carries_pure ⟨congrArg (Term.sequence _) equal, onward⟩
                rintro result last ⟨⟩ need
                exact need

theorem carries_calls {callee : Term} (here : tail.Continues rest others) :
    Carries (fun _ => True) (Onwards tail) (step dialect (read dialect depth) (.calls callee) rest)
      (step dialect (read dialect deeper) (.calls callee) others) := by
  refine carries_bind (carries_accept whole ends _ (by rintro _ ⟨⟩ <;> rfl) here) (fun _ _ _ _ => trivial)
    fun found taken alike => ?_
  cases alike with
  | none => exact carries_pure ⟨rfl, here⟩
  | @some one two both =>
      obtain ⟨token, after⟩ := one
      obtain ⟨other, behind⟩ := two
      obtain ⟨-, onward⟩ := both
      cases onward with
      | finish position =>
          refine carries_never _ fun one came _ => ?_
          obtain ⟨closer, none, came⟩ := ok_of_bind came
          cases none
          obtain ⟨call, read, -⟩ := ok_of_bind came
          exact @never_read dialect depth (.items (.call callee) []) trivial position call read
      | cons same later =>
          refine carries_bind (carries_acceptHere whole _ same later) (fun _ _ _ _ => trivial)
            fun found taken alike => ?_
          cases alike with
          | some closer => exact reads (.calls _) closer.2
          | none =>
              refine carries_bind (reads (.items _ _) (.cons same later)) (fun _ _ _ _ => trivial)
                fun _ _ ⟨equal, afterCall⟩ => ?_
              simp only [equal]
              exact reads (.calls _) afterCall

theorem carries_items {shape : ListShape} {done : List Term} (here : tail.Continues rest others) :
    Carries (fun _ => True) (Onwards tail) (step dialect (read dialect depth) (.items shape done) rest)
      (step dialect (read dialect deeper) (.items shape done) others) := by
  refine carries_bind (reads .expression here) ?_ fun item _ ⟨equal, afterItem⟩ => ?_
  · rintro ⟨item, after⟩ last came _ position rfl
    obtain ⟨_, rest, expected⟩ := ok_of_bind came
    cases rest
    obtain ⟨after, expected, -⟩ := ok_of_bind expected
    exact needs_of_expect expected position rfl
  · simp only [equal]
    refine carries_bind (carries_accept whole ends _ (by rintro _ ⟨⟩ <;> rfl) afterItem) (fun _ _ _ _ => trivial)
      fun found taken alike => ?_
    cases alike with
    | some both => exact reads (.items _ _) both.2
    | none =>
        exact carries_bind (carries_expect whole _ _ afterItem) (fun _ _ _ _ => trivial) fun _ _ onward =>
          carries_pure ⟨rfl, onward⟩

theorem carries_step (goal : Goal) (here : tail.Continues rest others) :
    Carries (Needs goal) (Onwards tail) (step dialect (read dialect depth) goal rest)
      (step dialect (read dialect deeper) goal others) := by
  cases goal with
  | expression => exact carries_expression ends whole reads here
  | assignment =>
      refine carries_bind (reads .conditional here) (fun _ _ _ _ => trivial) fun _ _ ⟨equal, afterTarget⟩ => ?_
      simp only [equal]
      refine carries_bind (carries_accept whole ends _ (by rintro _ ⟨⟩ <;> rfl) afterTarget) (fun _ _ _ _ => trivial)
        fun found taken alike => ?_
      cases alike with
      | none => exact carries_pure ⟨rfl, afterTarget⟩
      | some both => exact carries_assignTo reads both.2
  | conditional =>
      refine carries_bind (reads (.chain .disjunction) here) (fun _ _ _ _ => trivial)
        fun _ _ ⟨equal, afterCondition⟩ => ?_
      simp only [equal]
      refine carries_bind (carries_accept whole ends _ (by rintro _ ⟨⟩ <;> rfl) afterCondition)
        (fun _ _ _ _ => trivial) fun found taken alike => ?_
      cases alike with
      | none => exact carries_pure ⟨rfl, afterCondition⟩
      | some both =>
          refine carries_bind (reads .conditional both.2) (fun _ _ _ _ => trivial) fun _ _ ⟨equalYes, afterYes⟩ => ?_
          refine carries_bind (carries_expect whole _ _ afterYes) (fun _ _ _ _ => trivial) fun _ _ afterColon => ?_
          refine carries_bind (reads .conditional afterColon) (fun _ _ _ _ => trivial) fun _ _ ⟨equalNo, last⟩ => ?_
          simp only [equalYes, equalNo]
          exact carries_pure ⟨rfl, last⟩
  | chain level =>
      refine carries_bind (reads level.operand here) (fun _ _ _ _ => needs_operand level _)
        fun _ _ ⟨equal, afterLeft⟩ => ?_
      simp only [equal]
      exact reads (.chainRest level _) afterLeft
  | chainRest level left =>
      refine carries_bind (carries_accept whole ends _ (by rintro _ ⟨⟩ <;> cases level <;> rfl) here)
        (fun _ _ _ _ => trivial) fun found taken alike => ?_
      cases alike with
      | none => exact carries_pure ⟨rfl, here⟩
      | some both =>
          refine carries_bind (reads level.operand both.2) (fun _ _ _ _ => needs_operand level _)
            fun _ _ ⟨equal, afterRight⟩ => ?_
          simp only [equal, both.1]
          exact reads (.chainRest level _) afterRight
  | factor => exact carries_readFactor ends whole reads here
  | power =>
      refine carries_bind (reads .suffixed here) (fun _ _ _ _ => trivial) fun _ _ ⟨equal, afterBase⟩ => ?_
      simp only [equal]
      refine carries_bind (carries_accept whole ends _ (by rintro _ ⟨⟩ <;> rfl) afterBase) (fun _ _ _ _ => trivial)
        fun found taken alike => ?_
      cases alike with
      | none => exact carries_pure ⟨rfl, afterBase⟩
      | some both =>
          exact carries_bind (reads .factor both.2) (fun _ _ _ _ => trivial) fun _ _ ⟨equalExponent, last⟩ =>
            carries_pure ⟨congrArg (Term.binary _ _) equalExponent, last⟩
  | suffixed =>
      refine carries_bind (reads .application here) (fun _ _ _ _ => trivial) fun _ _ ⟨equal, afterOperand⟩ => ?_
      simp only [equal]
      exact reads (.factorials _) afterOperand
  | factorials operand =>
      refine carries_bind (carries_accept whole ends _ (by rintro _ ⟨⟩ <;> rfl) here) (fun _ _ _ _ => trivial)
        fun found taken alike => ?_
      cases alike with
      | none => exact carries_pure ⟨rfl, here⟩
      | some both => exact reads (.factorials _) both.2
  | application =>
      refine carries_bind (carries_accept whole ends _ (by rintro _ ⟨⟩ <;> rfl) here) (fun _ _ _ _ => trivial)
        fun found taken alike => ?_
      cases alike with
      | some both =>
          refine carries_bind (reads .atom both.2) (fun _ _ _ _ => trivial) fun _ _ ⟨equal, last⟩ => ?_
          simp only [equal, both.1]
          exact carries_pure ⟨rfl, last⟩
      | none =>
          refine carries_bind (reads .access here) (fun _ _ _ _ => trivial) fun _ _ ⟨equal, afterCallee⟩ => ?_
          simp only [equal]
          exact reads (.calls _) afterCallee
  | calls callee => exact carries_calls ends whole reads here
  | access =>
      refine carries_bind (reads .atom here) (fun _ _ _ _ => trivial) fun _ _ ⟨equal, afterObject⟩ => ?_
      simp only [equal]
      exact reads (.steps _) afterObject
  | steps object => exact carries_readSteps ends whole reads here
  | atom => exact carries_readAtom ends whole reads here
  | items shape done => exact carries_items ends whole reads here

end

/-- Where tokens go on, the same is read from them, at every depth that is no smaller. -/
theorem carries_read (whole : tail.Whole) (ends : tail.head.lexeme.Ends) (dialect : Dialect) {depth deeper : Nat}
    (enough : depth ≤ deeper) (goal : Goal) (here : tail.Continues rest others) :
    Carries (Needs goal) (Onwards tail) (read dialect depth goal rest) (read dialect deeper goal others) := by
  induction depth generalizing deeper goal rest others with
  | zero => exact carries_never _ nofun
  | succ depth ih =>
      cases deeper with
      | zero => cases enough
      | succ deeper =>
          exact carries_step ends whole (fun goal _ _ here => ih (Nat.le_of_succ_le_succ enough) goal here) goal here

end Grammar

end Formula
