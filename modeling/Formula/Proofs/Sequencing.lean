import Formula.Proofs.Continuation
import Formula.Proofs.Gaps
import Formula.Proofs.Lookahead
import Formula.Proofs.Precedence

/-!
Statements one after the other, and how they are grouped. Whatever a text denotes that holds no semicolon
outside of brackets, it denotes before a semicolon and before a closing parenthesis too.
-/

namespace Formula

/-- Whether no semicolon of a text stands outside of all brackets. -/
def Text.Single (dialect : Dialect) (source : Text) : Prop :=
  ∀ before after, (Tokens.ofText dialect source).delivered.map Token.lexeme = before ++ .semicolon :: after →
    ¬Balanced before

/-- What may follow a sequence of statements: the end of the text, or that of a parenthesis. -/
inductive Lexeme.Closes : Lexeme → Prop
  | endOfText : Closes .endOfText
  | closeParenthesis : Closes .closeParenthesis

theorem Lexeme.Closes.ends {lexeme : Lexeme} (closes : lexeme.Closes) :
    lexeme.Ends ∧ Grammar.isSemicolon lexeme = false := by
  cases closes with
  | endOfText => exact ⟨.endOfText, rfl⟩
  | closeParenthesis => exact ⟨.closeParenthesis, rfl⟩

/-- What may follow an expression goes on with nothing. -/
theorem Lexeme.Ends.quiet {lexeme : Lexeme} (ends : lexeme.Ends) :
    Grammar.isOperator "=" lexeme = false ∧ ∀ strength, Grammar.goesOn strength lexeme = false := by
  cases ends with
  | endOfText => exact ⟨rfl, Grammar.goesOn_endOfText⟩
  | semicolon => exact ⟨rfl, Grammar.goesOn_semicolon⟩
  | closeParenthesis => exact ⟨rfl, Grammar.goesOn_closeParenthesis⟩

theorem Balanced.first {first : Lexeme} {others : List Lexeme} (balanced : Balanced (first :: others)) :
    first ≠ .closeParenthesis := by
  rintro rfl
  cases balanced with
  | plain plain => cases plain

namespace Tokens

variable {tokens others : Tokens}

theorem delivered_lay (first : List Token) (rest : Tokens) :
    (lay first rest).delivered = first ++ rest.delivered := by
  induction first with
  | nil => rfl
  | cons token first ih => exact congrArg (token :: ·) ih

theorem fault?_lay (first : List Token) (rest : Tokens) : (lay first rest).fault? = rest.fault? := by
  induction first with
  | nil => rfl
  | cons token first ih => exact ih

theorem continues_lay {tail : Tokens} {first second : List Token} (position : Nat)
    (same : first.map Token.lexeme = second.map Token.lexeme) :
    tail.Continues (lay first (.finish position)) (lay second tail) := by
  induction first generalizing second with
  | nil =>
      obtain rfl := List.map_eq_nil_iff.mp same.symm
      exact .finish position
  | cons token first ih =>
      obtain ⟨other, second, rfl, equal, later⟩ := List.map_eq_cons_iff.mp same.symm
      exact .cons equal.symm (ih later.symm)

theorem alike_self (unbroken : tokens.fault? = none) (proper : tokens.All (· ≠ .endOfText)) :
    Alike tokens tokens :=
  alike_of_lexemes unbroken unbroken proper proper rfl

/-- Tokens hand out themselves. -/
theorem hands_self : Hands source (fun tokens others => tokens = others ∧ Alike tokens tokens) Eq Eq where
  whole here := here.2.whole.1
  proper here := by
    obtain ⟨-, alike⟩ := here
    cases alike with
    | cons same proper later => exact proper
  lexeme same := congrArg Token.lexeme same
  head here := congrArg head here.1
  take here := by
    obtain ⟨rfl, alike⟩ := here
    cases alike with
    | cons same proper later =>
        have whole : Grammar.settle _ = pure _ := later.whole.1
        rw [whole, take_cons later.whole.1]
        exact follows_pure ⟨rfl, rfl, later⟩
  finish here := by
    obtain ⟨rfl, -⟩ := here
    exact ⟨_, rfl⟩
  save here := here
  restore here _ := here
  blame cause _ same := by rw [same]; rfl

end Tokens

namespace Grammar

variable {dialect : Dialect} {goal : Goal} {tokens between rest : Tokens} {term other : Term} {source : Text}
  {lexemes others : List Lexeme}

theorem read_source (alike : Tokens.Alike tokens tokens) {depth deeper : Nat} (enough : depth ≤ deeper)
    (ends : (read dialect depth goal tokens).run ≠ none) :
    (Tokens.source.read dialect deeper goal tokens).run = (read dialect depth goal tokens).run := by
  have follows := @Hands.reading _ _ _ _ _ _ Tokens.hands_self dialect _ _ _ _ enough goal ⟨rfl, alike⟩
  unfold Follows at follows
  cases came : (read dialect depth goal tokens).run with
  | none => exact absurd came ends
  | some outcome =>
      rw [came] at follows
      cases outcome with
      | error fault =>
          obtain ⟨_, failed, rfl⟩ := follows
          exact failed
      | ok one =>
          obtain ⟨two, gave, equal, same, -⟩ := follows
          rw [gave, Prod.ext equal same]

/-- What is read at some depth is read at every depth that is enough. -/
theorem Derives.of_read (alike : Tokens.Alike tokens tokens) (good : goal.Good (fun _ => True) fun _ => True)
    (shorter : rest.size ≤ tokens.size) {depth : Nat}
    (came : (read dialect depth goal tokens).run = some (.ok (term, rest))) :
    Derives dialect goal tokens term rest := by
  refine ⟨shorter, fun other enough => ?_⟩
  have settles : (read dialect other goal tokens).run ≠ none := by
    intro never
    have ends := sound_read (@closed_trivial dialect) other goal tokens enough good alike.whole.1 (Tokens.all_trivial _)
    unfold Parse.Ends at ends
    rw [never] at ends
    exact ends
  have one := read_source alike (Nat.le_max_left depth other) (by rw [came]; exact Option.some_ne_none _)
  have two := read_source alike (Nat.le_max_right depth other) settles
  exact (two.symm.trans one).trans came

/-- An accepted text is read to its end. -/
theorem read_of_parse (parsed : parse dialect source = .ok term) :
    (Tokens.ofText dialect source).Whole ∧ ∃ last, (read dialect (depthFor (.ofText dialect source)) .expression
      (.ofText dialect source)).run = some (.ok (term, .finish last)) := by
  rcases parse_ends (@closed_trivial dialect) (Tokens.all_trivial _) with
    ⟨other, came, accepted, -⟩ | ⟨fault, -, failed, -⟩
  · rw [parsed] at accepted
    cases accepted
    obtain ⟨tokens, settled, came⟩ := ok_of_bind came
    obtain ⟨⟨term, rest⟩, read, came⟩ := ok_of_bind came
    have whole : (Tokens.ofText dialect source).Whole ∧ tokens = .ofText dialect source := by
      cases found : Tokens.ofText dialect source with
      | broken fault =>
          rw [found] at settled
          cases settled
      | _ =>
          rw [found] at settled
          cases settled
          exact ⟨rfl, rfl⟩
    obtain ⟨whole, rfl⟩ := whole
    cases rest with
    | finish last =>
        cases came
        exact ⟨whole, last, read⟩
    | _ => cases came
  · rw [parsed] at failed
    cases failed

/-- An accepted text is tokens in which all brackets are closed, and some tokens. -/
theorem spans_of_parse (parsed : parse dialect source = .ok term) :
    ∃ tokens last, Tokens.ofText dialect source = .lay tokens (.finish last) ∧
      Balanced (tokens.map Token.lexeme) ∧ tokens ≠ [] := by
  obtain ⟨whole, last, read⟩ := read_of_parse parsed
  have ends := sound_read (@closed_trivial dialect) (depthFor (.ofText dialect source)) .expression
    (.ofText dialect source) (by simp only [Goal.rank, depthFor]; omega) trivial whole (Tokens.all_trivial _)
  unfold Parse.Ends at ends
  rw [read] at ends
  obtain ⟨-, _, ⟨balanced, filled⟩, ⟨tokens, rfl, spans⟩, -, -⟩ := ends
  exact ⟨tokens, last, spans, balanced, fun none => filled (by rw [none]; rfl)⟩

/-- A text without semicolons outside of brackets is read as one statement. -/
theorem assignment_of_parse (parsed : parse dialect source = .ok term) (single : source.Single dialect) :
    ∃ last, Derives dialect .assignment (.ofText dialect source) term (.finish last) := by
  obtain ⟨whole, last, expression⟩ := read_of_parse parsed
  obtain ⟨tokens, ending, spans, -, -⟩ := spans_of_parse parsed
  have alike : Tokens.Alike (.ofText dialect source) (.ofText dialect source) :=
    Tokens.alike_self (by rw [spans, Tokens.fault?_lay]; rfl) (proper_ofText source)
  obtain ⟨depth, deep⟩ : ∃ depth, depthFor (.ofText dialect source) = depth + 1 :=
    ⟨_, (Nat.succ_pred_eq_of_pos (by simp only [depthFor]; omega)).symm⟩
  rw [deep] at expression
  obtain ⟨⟨first, after⟩, assignment, came⟩ := ok_of_bind expression
  have ends := sound_read (@closed_trivial dialect) depth .assignment (.ofText dialect source)
    (by simp only [Goal.rank]; simp only [depthFor] at deep; omega) trivial whole (Tokens.all_trivial _)
  unfold Parse.Ends at ends
  rw [assignment] at ends
  obtain ⟨-, taken, ⟨balanced, -⟩, reached⟩ := ends
  obtain ⟨found, accepted, came⟩ := ok_of_bind came
  cases found with
  | none =>
      cases came
      exact ⟨last, .of_read alike trivial (Nat.zero_le _) assignment⟩
  | some pair =>
      have passed := ends_accept isSemicolon reached
      unfold Parse.Ends at passed
      rw [accepted] at passed
      obtain ⟨isSemicolon, -, ⟨⟨before, spelled, same⟩, -, -⟩, -⟩ := passed pair.1 pair.2 rfl
      rw [eq_of_isSemicolon isSemicolon] at spelled
      refine absurd balanced (single taken (pair.2.delivered.map Token.lexeme) ?_)
      rw [same, Tokens.delivered_lay, List.map_append, spelled, List.append_assoc]
      rfl

/-- Lexemes that are read as a term towards a goal, before whatever may follow there. -/
structure Stated (dialect : Dialect) (goal : Goal) (follows : Lexeme → Prop) (lexemes : List Lexeme)
    (term : Term) : Prop where
  begins : ∃ first others, lexemes = first :: others ∧ endsStatement first = false
  derives : ∀ (tokens : List Token) (rest : Tokens), tokens.map Token.lexeme = lexemes → rest.Whole →
    follows rest.head.lexeme → Derives dialect goal (.lay tokens rest) term rest

abbrev Statement (dialect : Dialect) := Stated dialect .assignment Lexeme.Ends

/-- Statements one after the other. -/
abbrev Statements (dialect : Dialect) := Stated dialect .expression Lexeme.Closes

theorem spelling_of_parse (parsed : parse dialect source = .ok term) (lexed : Lexed dialect source lexemes) :
    ∃ tokens last, Tokens.ofText dialect source = .lay tokens (.finish last) ∧
      tokens.map Token.lexeme = lexemes ∧ Balanced lexemes ∧ lexemes ≠ [] := by
  obtain ⟨tokens, last, spelled, scanned⟩ := lexed.scan 0
  have scanned : Tokens.ofText dialect source = .lay tokens (.finish last) := scanned
  obtain ⟨others, other, spans, balanced, filled⟩ := spans_of_parse parsed
  have same := congrArg Tokens.delivered (scanned.symm.trans spans)
  rw [Tokens.delivered_lay, Tokens.delivered_lay] at same
  obtain ⟨rfl, -⟩ := List.append_inj' same rfl
  subst spelled
  exact ⟨tokens, last, scanned, rfl, balanced, fun none => filled (List.map_eq_nil_iff.mp none)⟩

theorem begins_of_parse (parsed : parse dialect source = .ok term) (lexed : Lexed dialect source lexemes) :
    ∃ first others, lexemes = first :: others ∧ endsStatement first = false := by
  obtain ⟨tokens, last, scanned, rfl, balanced, filled⟩ := spelling_of_parse parsed lexed
  cases tokens with
  | nil => exact absurd rfl filled
  | cons token tokens =>
      refine ⟨token.lexeme, tokens.map Token.lexeme, rfl, ?_⟩
      have proper : token.lexeme ≠ .endOfText := by
        have all := @proper_ofText dialect source
        rw [scanned] at all
        exact all.1
      have opens := balanced.first
      cases found : token.lexeme with
      | endOfText => exact absurd found proper
      | closeParenthesis => exact absurd found opens
      | _ => rfl

/-- What a text denotes by itself, its tokens denote before others. -/
theorem statement_of_parse (parsed : parse dialect source = .ok term) (single : source.Single dialect)
    (lexed : Lexed dialect source lexemes) : Statement dialect lexemes term := by
  refine ⟨begins_of_parse parsed lexed, fun tokens rest spelled whole ends => ?_⟩
  obtain ⟨own, ending, scanned, rfl, -, -⟩ := spelling_of_parse parsed lexed
  obtain ⟨last, assignment⟩ := assignment_of_parse parsed single
  rw [scanned] at assignment
  have here : rest.Continues (.lay own (.finish ending)) (.lay tokens rest) :=
    Tokens.continues_lay ending spelled.symm
  have same : tokens.length = own.length := by simpa using congrArg List.length spelled
  refine ⟨by rw [Tokens.size_lay]; omega, fun depth enough => ?_⟩
  simp only [Goal.rank, Tokens.size_lay] at enough
  have read := assignment.result (13 + 16 * own.length)
    (by simp only [Goal.rank, Tokens.size_lay, Tokens.size]; omega)
  obtain ⟨⟨_, after⟩, came, rfl, onward⟩ := carries_read whole ends dialect
    (by omega : 13 + 16 * own.length ≤ depth) .assignment here _ (congrArg ExceptT.run read) trivial
  cases onward
  exact came

variable {tokens : List Token} {rest : Tokens}

/-- A statement by itself. -/
theorem Stated.last (statement : Statement dialect lexemes term) : Statements dialect lexemes term where
  begins := statement.begins
  derives tokens rest spelled whole closes :=
    derives_last closes.ends.2 (statement.derives tokens rest spelled whole closes.ends.1)

/-- A statement before others, parted by a semicolon. -/
theorem Stated.before (statement : Statement dialect lexemes term) (statements : Statements dialect others other) :
    Statements dialect (lexemes ++ .semicolon :: others) (.sequence term other) where
  begins := by
    obtain ⟨first, more, rfl, opens⟩ := statement.begins
    exact ⟨first, _, rfl, opens⟩
  derives tokens rest spelled whole closes := by
    obtain ⟨before, ending, rfl, spelledFirst, spelledEnding⟩ := List.map_eq_append_iff.mp spelled
    obtain ⟨⟨_, position⟩, after, rfl, rfl, spelledOthers⟩ := List.map_eq_cons_iff.mp spelledEnding
    obtain ⟨first, more, same, opens⟩ := statements.begins
    have goesOn : endsStatement (Tokens.lay after rest).head.lexeme = false := by
      rw [head_lay (spelledOthers.trans same)]
      exact opens
    rw [Tokens.lay_append, Tokens.lay_cons]
    exact derives_sequence (Tokens.whole_lay after whole) goesOn
      (statement.derives before _ spelledFirst (Tokens.whole_cons _ _) .semicolon)
      (statements.derives after rest spelledOthers whole closes)

/-- Statements in parentheses are one statement. -/
theorem Stated.enclosed (statements : Statements dialect lexemes term) :
    Statement dialect (.openParenthesis :: (lexemes ++ [.closeParenthesis])) term where
  begins := ⟨_, _, rfl, rfl⟩
  derives tokens rest spelled whole ends := by
    have reads := reads_parenthesized fun tokens closing rest spelled =>
      statements.derives tokens (.cons ⟨.closeParenthesis, closing⟩ rest) spelled (Tokens.whole_cons _ _)
        .closeParenthesis
    have conditional := (@Reads.weaken _ .conditional _ _ _ reads (Nat.zero_le _)).ended spelled whole
      fun other _ => ends.quiet.2 other
    exact derives_assignment ends.quiet.1 conditional

/-- A text of statements is accepted. -/
theorem Stated.parse (statements : Statements dialect lexemes term) (lexed : Lexed dialect source lexemes) :
    parse dialect source = .ok term := by
  obtain ⟨tokens, last, spelled, scanned⟩ := lexed.scan 0
  have scanned : Tokens.ofText dialect source = .lay tokens (.finish last) := scanned
  have whole := Tokens.whole_lay tokens (Tokens.whole_finish last)
  have derived := statements.derives tokens (.finish last) spelled (Tokens.whole_finish last) .endOfText
  simp only [Formula.parse, scanned, readAll_of_derives whole derived]
  rfl

end Grammar

end Formula
