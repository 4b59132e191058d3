import Formula.Grammar

/-!
The tokens of a text by a recursion on a bound, so that the tokens of a given text can be computed.
-/

namespace Formula

namespace Tokens

/-- The tokens from a place on, at most as many as a bound. -/
def scanWithin (dialect : Dialect) : Nat → Cursor → Tokens
  | 0, cursor => .finish cursor.skip.position
  | bound + 1, cursor =>
    match cursor.skip with
    | ⟨position, []⟩ => .finish position
    | ⟨position, first :: rest⟩ =>
      match Scan.token dialect first rest with
      | .error (cause, offset) => .broken { cause := cause, position := position + offset }
      | .ok (lexeme, size) =>
        .cons ⟨lexeme, position⟩
          (scanWithin dialect bound ⟨position + size + 1, rest.drop size⟩)

theorem scan_eq_scanWithin (dialect : Dialect) (bound : Nat) (cursor : Cursor)
    (enough : cursor.rest.length ≤ bound) : scan dialect cursor = scanWithin dialect bound cursor := by
  induction bound generalizing cursor with
  | zero =>
      obtain ⟨position, rest⟩ := cursor
      cases List.length_eq_zero_iff.mp (Nat.le_zero.mp enough)
      rw [scan]
      rfl
  | succ bound ih =>
      rw [scan, scanWithin]
      have shorter := cursor.skip_length_le
      split
      · rename_i position found
        simp only [found]
      · rename_i position first rest found
        rw [found] at shorter
        simp only [found]
        cases taken : Scan.token dialect first rest with
        | error refusal => rfl
        | ok read =>
            simp only
            rw [ih]
            simp only [List.length_cons, List.length_drop] at shorter ⊢
            omega

end Tokens

/-- Whether a reading comes to a result. -/
def Parse.isOk {α : Type} (reading : Parse α) : Bool :=
  match reading.run with
  | some (.ok _) => true
  | _ => false

/-- What the parser makes of a text, computed with a bound on the tokens. -/
def reading (dialect : Dialect) (source : Text) : Parse Term :=
  Grammar.readAll dialect (Tokens.scanWithin dialect source.length ⟨0, source⟩)

theorem parse_of_reading {dialect : Dialect} {source : Text} {term : Term}
    (came : (reading dialect source).run = some (.ok term)) : parse dialect source = .ok term := by
  have tokens : Tokens.ofText dialect source =
      Tokens.scanWithin dialect source.length ⟨0, source⟩ :=
    Tokens.scan_eq_scanWithin dialect source.length ⟨0, source⟩ (Nat.le_refl _)
  unfold reading at came
  unfold parse
  rw [tokens]
  simp only [came]
  rfl

theorem isOk_of_parse {dialect : Dialect} {source : Text} {term : Term}
    (accepted : parse dialect source = .ok term) : (reading dialect source).isOk = true := by
  unfold parse at accepted
  rw [Tokens.ofText, Tokens.scan_eq_scanWithin dialect source.length ⟨0, source⟩ (Nat.le_refl _)] at accepted
  unfold Parse.isOk reading
  simp only at accepted
  split at accepted
  · rename_i outcome came
    rw [came]
    cases outcome with
    | error fault => cases accepted
    | ok term => rfl
  · cases accepted

theorem parse_isOk {dialect : Dialect} {source : Text}
    (accepted : (reading dialect source).isOk = true) : ∃ term, parse dialect source = .ok term := by
  unfold Parse.isOk at accepted
  split at accepted
  · rename_i term came
    exact ⟨term, parse_of_reading came⟩
  · cases accepted

/-- Whether two values are the same truth, integer or text. Floats are not compared. -/
def Value.isSame : Value → Value → Bool
  | .null, .null => true
  | .bool one, .bool two => one = two
  | .int one, .int two => one = two
  | .text one, .text two => one = two
  | _, _ => false

theorem Value.eq_of_isSame {one two : Value} (same : one.isSame two = true) : one = two := by
  unfold isSame at same
  split at same
  · rfl
  · rw [of_decide_eq_true same]
  · rw [of_decide_eq_true same]
  · rw [of_decide_eq_true same]
  · cases same

mutual

/-- Whether two instructions are the same, as far as that is decided. -/
def Instruction.isSame : Instruction → Instruction → Bool
  | .literal one, .literal two => one.isSame two
  | .unary one, .unary two => one = two
  | .binary one, .binary two => one = two
  | .ternary one, .ternary two => one = two
  | .name one, .name two => one = two
  | .target one, .target two => one = two
  | .call one, .call two => one = two
  | .define one, .define two => one = two
  | .nested one, .nested two => allSame one two
  | .member one, .member two => one = two
  | .discard, .discard => true
  | .array one, .array two => one = two
  | _, _ => false

def allSame : List Instruction → List Instruction → Bool
  | [], [] => true
  | first :: one, second :: two => first.isSame second && allSame one two
  | _, _ => false

end

mutual

theorem Instruction.eq_of_isSame : ∀ {one two : Instruction}, one.isSame two = true → one = two := by
  intro one two same
  cases one <;> cases two
  all_goals first
    | cases same; done
    | rfl
    | exact congrArg _ (Value.eq_of_isSame same)
    | exact congrArg _ (eq_of_allSame same)
    | exact congrArg _ (of_decide_eq_true same)

theorem eq_of_allSame : ∀ {one two : List Instruction}, allSame one two = true → one = two := by
  intro one two same
  cases one with
  | nil => cases two with
    | nil => rfl
    | cons second two => cases same
  | cons first one => cases two with
    | nil => cases same
    | cons second two =>
        have both := Bool.and_eq_true_iff.mp same
        rw [Instruction.eq_of_isSame both.1, eq_of_allSame both.2]

end

mutual

/-- Whether two terms are the same, as far as that is decided. -/
def Term.isSame : Term → Term → Bool
  | .literal one, .literal two => one.isSame two
  | .name one, .name two => one = two
  | .unary one operand, .unary two other => one = two && operand.isSame other
  | .binary one left right, .binary two first second
  | .shortCircuit one left right, .shortCircuit two first second =>
    one = two && left.isSame first && right.isSame second
  | .conditional condition yes no, .conditional first second third =>
    condition.isSame first && yes.isSame second && no.isSame third
  | .assign one value, .assign two other => one = two && value.isSame other
  | .assignMember object one value, .assignMember first two other =>
    one = two && object.isSame first && value.isSame other
  | .define one parameters body, .define two others other =>
    one = two && parameters = others && body.isSame other
  | .call callee arguments, .call other others => callee.isSame other && allSameTerms arguments others
  | .member object one, .member other two => one = two && object.isSame other
  | .array items, .array others => allSameTerms items others
  | .statement body, .statement other => body.isSame other
  | .sequence first rest, .sequence second others => first.isSame second && rest.isSame others
  | _, _ => false

def allSameTerms : List Term → List Term → Bool
  | [], [] => true
  | first :: one, second :: two => first.isSame second && allSameTerms one two
  | _, _ => false

end

mutual

theorem Term.eq_of_isSame : ∀ {one two : Term}, one.isSame two = true → one = two := by
  intro one two same
  cases one <;> cases two
  all_goals try cases same
  all_goals simp only [Term.isSame, Bool.and_eq_true, decide_eq_true_eq] at same
  case literal.literal => rw [Value.eq_of_isSame same]
  case name.name => rw [same]
  case unary.unary => rw [same.1, Term.eq_of_isSame same.2]
  case binary.binary => rw [same.1.1, Term.eq_of_isSame same.1.2, Term.eq_of_isSame same.2]
  case shortCircuit.shortCircuit =>
    rw [same.1.1, Term.eq_of_isSame same.1.2, Term.eq_of_isSame same.2]
  case conditional.conditional =>
    rw [Term.eq_of_isSame same.1.1, Term.eq_of_isSame same.1.2, Term.eq_of_isSame same.2]
  case assign.assign => rw [same.1, Term.eq_of_isSame same.2]
  case assignMember.assignMember =>
    rw [same.1.1, Term.eq_of_isSame same.1.2, Term.eq_of_isSame same.2]
  case define.define => rw [same.1.1, same.1.2, Term.eq_of_isSame same.2]
  case call.call => rw [Term.eq_of_isSame same.1, eq_of_allSameTerms same.2]
  case member.member => rw [same.1, Term.eq_of_isSame same.2]
  case array.array => rw [eq_of_allSameTerms same]
  case statement.statement => rw [Term.eq_of_isSame same]
  case sequence.sequence => rw [Term.eq_of_isSame same.1, Term.eq_of_isSame same.2]

theorem eq_of_allSameTerms : ∀ {one two : List Term}, allSameTerms one two = true → one = two := by
  intro one two same
  cases one with
  | nil => cases two with
    | nil => rfl
    | cons second two => cases same
  | cons first one => cases two with
    | nil => cases same
    | cons second two =>
        have both := Bool.and_eq_true_iff.mp same
        rw [Term.eq_of_isSame both.1, eq_of_allSameTerms both.2]

end

/-- Whether a reading comes to a given term. -/
def Parse.reads (reading : Parse Term) (term : Term) : Bool :=
  match reading.run with
  | some (.ok other) => other.isSame term
  | _ => false

theorem parse_of_reads {dialect : Dialect} {source : Text} {term : Term}
    (accepted : (reading dialect source).reads term = true) : parse dialect source = .ok term := by
  unfold Parse.reads at accepted
  split at accepted
  · rename_i other came
    rw [← Term.eq_of_isSame accepted]
    exact parse_of_reading came
  · cases accepted

/-- Whether a reading comes to a term with a given program. -/
def Parse.comesTo (reading : Parse Term) (program : Program) : Bool :=
  match reading.run with
  | some (.ok term) => allSame term.code program
  | _ => false

theorem parse_code {dialect : Dialect} {source : Text} {program : Program}
    (accepted : (reading dialect source).comesTo program = true) :
    ∃ term, parse dialect source = .ok term ∧ term.code = program := by
  unfold Parse.comesTo at accepted
  split at accepted
  · rename_i term came
    exact ⟨term, parse_of_reading came, eq_of_allSame accepted⟩
  · cases accepted

end Formula
