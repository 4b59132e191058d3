import Formula.Proofs.Checked
import Formula.Proofs.Determinism
import Formula.Proofs.Knowledge
import Formula.Proofs.Parsing
import Formula.Proofs.Sequencing

/-!
The grouping of statements. Parentheses around the last statements of a sequence change nothing. Parentheses
around the first ones make a program of them that is dropped before it runs.
-/

namespace Formula

/-! Texts of statements. -/

def Text.sequenced (first second : Text) : Text := first ++ Text.ofString "; " ++ second

def Text.parenthesized (inner : Text) : Text := Text.ofString "(" ++ inner ++ Text.ofString ")"

namespace Lexed

variable {dialect : Dialect} {first second : Text} {lexemes others : List Lexeme}

theorem sequenced (lexed : Lexed dialect first lexemes) (later : Lexed dialect second others) :
    Lexed dialect (first.sequenced second) (lexemes ++ .semicolon :: others) := by
  rw [Text.sequenced, List.append_assoc]
  refine lexed.append ?_ later.space.semicolon
  rintro _ _ ⟨⟩
  decide

theorem parenthesized (lexed : Lexed dialect first lexemes) :
    Lexed dialect first.parenthesized (.openParenthesis :: (lexemes ++ [.closeParenthesis])) := by
  rw [Text.parenthesized, List.append_assoc]
  refine (lexed.append ?_ (closeParenthesis (.finish .nil))).openParenthesis
  rintro _ _ ⟨⟩
  decide

end Lexed

namespace Machine

theorem unsigned_unsigned (value : Value) : unsigned (unsigned value) = unsigned value := by
  cases value with
  | float number =>
      cases zero : (number == 0.0) with
      | true => simp [unsigned, zero]
      | false => simp [unsigned, zero]
  | _ => rfl

section

variable {depth dialect scope : Nat} {program rest : Program} {state between after : State}
  {outcome : Except Failure Value}

/-- What a program comes to, with some amount of fuel. -/
def Runs (dialect : Nat) (program : Program) (scope : Nat) (state : State) (outcome : Except Failure Value)
    (after : State) : Prop :=
  ∃ depth, perform depth (.run dialect program scope) state = some (outcome, after)

/-- The state that a statement leads to, whatever its value. -/
def Leads (dialect : Nat) (program : Program) (scope : Nat) (state after : State) : Prop :=
  Runs dialect (program ++ [.discard]) scope state (.ok .null) after

theorem run_eq (perform : Perform) (frame : Frame) (program : Program) :
    run perform frame program = steps perform frame program [] >>= ending perform frame := rfl

/-- The value of a program is no negative zero. -/
theorem unsigned_run (perform : Perform) (frame : Frame) (program : Program) :
    (run perform frame program >>= fun value => pure (unsigned value)) = run perform frame program := by
  rw [run_eq, bind_assoc]
  refine congrArg _ (funext fun stack => ?_)
  match stack with
  | [] => rfl
  | [operand] => simp only [ending, bind_assoc, pure_bind, unsigned_unsigned]
  | _ :: _ :: _ => rfl

/-- A program within a program is run in its place. -/
theorem perform_nested (depth dialect scope : Nat) (program : Program) :
    perform (depth + 1) (.run dialect [.nested program] scope) = perform depth (.run dialect program scope) := by
  have nested : perform (depth + 1) (.run dialect [.nested program] scope) =
      (perform depth (.run dialect program scope) >>= fun value => pure (unsigned value)) := rfl
  rw [nested]
  cases depth with
  | zero => rfl
  | succ depth => exact unsigned_run (perform depth) ⟨dialect, scope⟩ program

/-- A program within a program that is dropped at once is not run. -/
theorem perform_dropped (depth dialect scope : Nat) (program rest : Program) :
    perform (depth + 1) (.run dialect (.nested program :: .discard :: rest) scope) =
      perform (depth + 1) (.run dialect rest scope) := rfl

/-- A disciplined program leaves one operand, if it comes to an end. -/
theorem gives_steps (perform : Perform) (frame : Frame) {shapes result : List Shape} {stack : Stack}
    (fits : Fits (fun _ => True) shapes stack) (scanned : scan program shapes = some result) :
    Eval.Gives (Fits (fun _ => True) result) (steps perform frame program stack) := by
  induction program generalizing shapes stack with
  | nil =>
      cases scanned
      exact Eval.gives_pure fits
  | cons instruction rest ih =>
      simp only [scan] at scanned
      cases taken : take instruction.demands shapes with
      | none => simp [taken] at scanned
      | some lower =>
          rw [taken] at scanned
          exact Eval.gives_bind (gives_step perform frame fun _ _ => trivial)
            fun after leaves => ih (fits_leaves fits taken leaves) scanned

/-- After a statement the rest is run in the state that the statement leads to. -/
theorem perform_statement (disciplined : program.disciplined = true)
    (led : perform (depth + 1) (.run dialect (program ++ [.discard]) scope) state = some (.ok .null, between)) :
    perform (depth + 1) (.run dialect (program ++ .discard :: rest) scope) state =
      perform (depth + 1) (.run dialect rest scope) between := by
  obtain ⟨⟨shape, scanned, -⟩, -⟩ := disciplined_iff.mp disciplined
  change run (perform depth) ⟨dialect, scope⟩ (program ++ [.discard]) state = _ at led
  change run (perform depth) ⟨dialect, scope⟩ (program ++ .discard :: rest) state =
    run (perform depth) ⟨dialect, scope⟩ rest between
  rw [run_eq, steps_append, bind_assoc] at led
  obtain ⟨stack, reached, came, ended⟩ := Eval.bind_eq_ok led
  have one := gives_steps (perform depth) ⟨dialect, scope⟩ .nil scanned state stack reached came
  match stack, one with
  | [operand], _ =>
      cases ended
      rw [run_eq, steps_append, bind_assoc, Eval.bind_apply, came]
      rfl

end

section

variable {dialect scope : Nat} {first second third rest program : Program} {state between reached after : State}
  {outcome : Except Failure Value}

theorem runs_nested : Runs dialect [.nested program] scope state outcome after ↔
    Runs dialect program scope state outcome after := by
  constructor
  · rintro ⟨depth, came⟩
    exact ⟨depth, by rw [← perform_nested]; exact perform_succ came⟩
  · rintro ⟨depth, came⟩
    exact ⟨depth + 1, by rw [perform_nested]; exact came⟩

theorem runs_dropped : Runs dialect (.nested program :: .discard :: rest) scope state outcome after ↔
    Runs dialect rest scope state outcome after := by
  constructor
  · rintro ⟨depth, came⟩
    exact ⟨depth + 1, by rw [← perform_dropped]; exact perform_succ came⟩
  · rintro ⟨depth, came⟩
    exact ⟨depth + 1, by rw [perform_dropped]; exact perform_succ came⟩

theorem runs_statement (disciplined : program.disciplined = true)
    (led : Leads dialect program scope state between) :
    Runs dialect (program ++ .discard :: rest) scope state outcome after ↔
      Runs dialect rest scope between outcome after := by
  obtain ⟨enough, led⟩ := led
  have leads (depth : Nat) := @perform_statement (enough + depth) dialect scope program rest state between
    disciplined (perform_le (by omega) led)
  constructor
  · rintro ⟨depth, came⟩
    exact ⟨enough + depth + 1, by rw [← leads]; exact perform_le (by omega) came⟩
  · rintro ⟨depth, came⟩
    exact ⟨enough + depth + 1, by rw [leads]; exact perform_le (by omega) came⟩

/-- What comes to the same does so after a statement too. -/
theorem runs_rest (disciplined : program.disciplined = true)
    (same : ∀ between outcome after, Runs dialect first scope between outcome after →
      Runs dialect second scope between outcome after)
    (ran : Runs dialect (program ++ .discard :: first) scope state outcome after) :
    Runs dialect (program ++ .discard :: second) scope state outcome after := by
  obtain ⟨_ | depth, came⟩ := ran
  · cases came
  have unfolded (rest : Program) : perform (depth + 1) (.run dialect (program ++ rest) scope) state =
      (steps (perform depth) ⟨dialect, scope⟩ program [] >>= fun stack =>
        steps (perform depth) ⟨dialect, scope⟩ rest stack >>= ending (perform depth) ⟨dialect, scope⟩) state := by
    change run (perform depth) ⟨dialect, scope⟩ (program ++ rest) state = _
    rw [run_eq, steps_append, bind_assoc]
  cases stepped : steps (perform depth) ⟨dialect, scope⟩ program [] state with
  | none => simp [unfolded, Eval.bind_apply, stepped] at came
  | some reached =>
      obtain ⟨failure | stack, between⟩ := reached
      · -- The statement fails, whatever comes after it.
        refine ⟨depth + 1, ?_⟩
        rw [unfolded, Eval.bind_apply, stepped] at came ⊢
        exact came
      · obtain ⟨⟨shape, scanned, -⟩, -⟩ := disciplined_iff.mp disciplined
        have one := gives_steps (perform depth) ⟨dialect, scope⟩ .nil scanned state stack between stepped
        have led : perform (depth + 1) (.run dialect (program ++ [.discard]) scope) state =
            some (.ok .null, between) := by
          match stack, one with
          | [operand], _ => rw [unfolded, Eval.bind_apply, stepped]; rfl
        rw [perform_statement disciplined led] at came
        exact (runs_statement disciplined ⟨depth + 1, led⟩).mpr (same between outcome after ⟨depth + 1, came⟩)

end

end Machine

open Machine

/-- A text of a single expression that denotes a term, with all its comments closed. -/
structure Text.Expresses (dialect : Dialect) (source : Text) (term : Term) : Prop where
  parsed : parse dialect source = .ok term
  single : source.Single dialect
  closed : ¬EndsInComment dialect source

namespace Text.Expresses

variable {dialect : Dialect} {source : Text} {term : Term}

/-- Its tokens, which are one statement wherever they stand. -/
theorem statement (expresses : source.Expresses dialect term) :
    ∃ lexemes, Lexed dialect source lexemes ∧ Grammar.Statement dialect lexemes term := by
  obtain ⟨tokens, last, spans, -, -⟩ := Grammar.spans_of_parse expresses.parsed
  have unbroken : (Tokens.ofText dialect source).fault? = none := by
    rw [spans, Tokens.fault?_lay]
    rfl
  rcases Lexed.of_unbroken source 0 unbroken with ⟨lexemes, lexed⟩ | comment
  · exact ⟨lexemes, lexed, Grammar.statement_of_parse expresses.parsed expresses.single lexed⟩
  · exact absurd comment expresses.closed

end Text.Expresses

theorem EndsInComment.slash {dialect : Dialect} {source : Text} (comment : EndsInComment dialect source) :
    '/'.toNat ∈ source := by
  induction comment with
  | here closed unclosed => exact List.mem_append_right _ List.mem_cons_self
  | later closed stops read later ih =>
      exact List.mem_append_right _ (List.mem_cons_of_mem _ (List.mem_of_mem_drop ih))

/-- No semicolon among the tokens is none outside of brackets. -/
theorem Text.single_of_tokens {dialect : Dialect} {source : Text}
    (none : (Tokens.scanWithin dialect source.length ⟨0, source⟩).delivered.all
      (fun token => !Grammar.isSemicolon token.lexeme) = true) : source.Single dialect := by
  intro before after spelled _
  rw [Tokens.ofText, Tokens.scan_eq_scanWithin dialect source.length ⟨0, source⟩ (Nat.le_refl _)] at spelled
  obtain ⟨token, member, same⟩ := List.mem_map.mp (spelled ▸ List.mem_append_right before List.mem_cons_self)
  have other := List.all_eq_true.mp none token member
  rw [same] at other
  cases other

/-- Whether the last statements of a sequence stand in parentheses makes no difference: either way the first
two are run one after the other, and the third is run in the state that they lead to. If the first two stand
in parentheses, they are not run, and the sequence comes to what the third comes to by itself. -/
theorem statement_grouping {dialect : Dialect} {first second third : Text} {one two last : Term}
    (expressesFirst : first.Expresses dialect one) (expressesSecond : second.Expresses dialect two)
    (expressesThird : third.Expresses dialect last) :
    ∃ dropped flat,
      parse dialect ((first.sequenced second).parenthesized.sequenced third) = .ok dropped ∧
      parse dialect (first.sequenced (second.sequenced third).parenthesized) = .ok flat ∧
      parse dialect (first.sequenced (second.sequenced third)) = .ok flat ∧
      ∀ own scope state outcome after,
        (Runs own dropped.code scope state outcome after ↔ Runs own last.code scope state outcome after) ∧
        ∀ between reached, Leads own one.code scope state between → Leads own two.code scope between reached →
          (Runs own flat.code scope state outcome after ↔ Runs own last.code scope reached outcome after) := by
  obtain ⟨_, lexedFirst, statementFirst⟩ := expressesFirst.statement
  obtain ⟨_, lexedSecond, statementSecond⟩ := expressesSecond.statement
  obtain ⟨_, lexedThird, statementThird⟩ := expressesThird.statement
  have start := statementFirst.before statementSecond.last
  have rest := statementSecond.before statementThird.last
  refine ⟨.sequence (.sequence one two) last, .sequence one (.sequence two last),
    (start.enclosed.before statementThird.last).parse ((lexedFirst.sequenced lexedSecond).parenthesized.sequenced
      lexedThird),
    (statementFirst.before rest.enclosed.last).parse (lexedFirst.sequenced (lexedSecond.sequenced
      lexedThird).parenthesized),
    (statementFirst.before rest).parse (lexedFirst.sequenced (lexedSecond.sequenced lexedThird)),
    fun own scope state outcome after => ⟨?_, fun between reached led ledOn => ?_⟩⟩
  · exact runs_nested.trans runs_dropped
  · refine runs_nested.trans ((runs_statement (parse_disciplined expressesFirst.parsed) led).trans ?_)
    exact runs_nested.trans (runs_statement (parse_disciplined expressesSecond.parsed) ledOn)

/-- A context without bindings. -/
def blank : State := { heap := { maps := #[[]] }, dialects := #[.standard {}] }

/-- Two assignments, and a sum of what they bind. -/
theorem statement_grouping_of_assignments :
    ∃ one two last,
      (Text.ofString "x = 1").Expresses (.standard {}) one ∧ (Text.ofString "y = x").Expresses (.standard {}) two ∧
      (Text.ofString "x + y").Expresses (.standard {}) last ∧
      ∃ dropped flat, parse (.standard {}) (Text.ofString "(x = 1; y = x); x + y") = .ok dropped ∧
        parse (.standard {}) (Text.ofString "x = 1; (y = x; x + y)") = .ok flat ∧
        parse (.standard {}) (Text.ofString "x = 1; y = x; x + y") = .ok flat ∧
        Runs 0 dropped.code 0 blank (.error (.evaluation (.undefinedVariable (Text.ofString "x")))) blank ∧
        ∃ after, Runs 0 flat.code 0 blank (.ok (.int 2)) after := by
  obtain ⟨one, parsedOne, codeOne⟩ := parse_code (by decide +kernel : (reading (.standard {})
    (Text.ofString "x = 1")).comesTo [.target (Text.ofString "x"), .nested [.literal (.int 1)],
      .binary (Text.ofString "=")] = true)
  obtain ⟨two, parsedTwo, codeTwo⟩ := parse_code (by decide +kernel : (reading (.standard {})
    (Text.ofString "y = x")).comesTo [.target (Text.ofString "y"), .nested [.name (Text.ofString "x")],
      .binary (Text.ofString "=")] = true)
  obtain ⟨last, parsedLast, codeLast⟩ := parse_code (by decide +kernel : (reading (.standard {})
    (Text.ofString "x + y")).comesTo [.name (Text.ofString "x"), .name (Text.ofString "y"),
      .binary (Text.ofString "+")] = true)
  have first : (Text.ofString "x = 1").Expresses (.standard {}) one :=
    ⟨parsedOne, Text.single_of_tokens (by decide +kernel), fun comment => absurd comment.slash (by decide)⟩
  have second : (Text.ofString "y = x").Expresses (.standard {}) two :=
    ⟨parsedTwo, Text.single_of_tokens (by decide +kernel), fun comment => absurd comment.slash (by decide)⟩
  have third : (Text.ofString "x + y").Expresses (.standard {}) last :=
    ⟨parsedLast, Text.single_of_tokens (by decide +kernel), fun comment => absurd comment.slash (by decide)⟩
  obtain ⟨dropped, flat, parsedDropped, parsedGrouped, parsedFlat, grouping⟩ := statement_grouping first second third
  have came : ∃ between reached after, Leads 0 one.code 0 blank between ∧ Leads 0 two.code 0 between reached ∧
      Runs 0 last.code 0 reached (.ok (.int 2)) after ∧
      Runs 0 last.code 0 blank (.error (.evaluation (.undefinedVariable (Text.ofString "x")))) blank := by
    rw [codeOne, codeTwo, codeLast]
    exact ⟨_, _, _, ⟨4, rfl⟩, ⟨4, rfl⟩, ⟨4, rfl⟩, ⟨4, rfl⟩⟩
  obtain ⟨between, reached, after, led, ledOn, ran, failed⟩ := came
  refine ⟨one, two, last, first, second, third, dropped, flat, parsedDropped, parsedGrouped, parsedFlat,
    (grouping 0 0 blank _ _).1.mpr failed, after, ?_⟩
  exact ((grouping 0 0 blank _ _).2 between reached led ledOn).mpr ran

/-- Statements in parentheses before others bind nothing, and a comment that is still open at the end of the
first statement takes in what closes the parentheses. -/
theorem grouping_matters :
    (∃ one two last dropped flat, (Text.ofString "x = 1").Expresses (.standard {}) one ∧
      (Text.ofString "y = 2").Expresses (.standard {}) two ∧ (Text.ofString "3").Expresses (.standard {}) last ∧
      parse (.standard {}) (Text.ofString "(x = 1; y = 2); 3") = .ok dropped ∧
      parse (.standard {}) (Text.ofString "x = 1; y = 2; 3") = .ok flat ∧
      (∀ outcome after, Runs 0 dropped.code 0 blank outcome after →
        outcome = .ok (.int 3) ∧ after.heap.entries 0 = []) ∧
      ∃ after, Runs 0 flat.code 0 blank (.ok (.int 3)) after ∧ after.heap.entries 0 =
        [(.text (Text.ofString "x"), .int 1), (.text (Text.ofString "y"), .int 2)]) ∧
    ∃ open' other, parse (.standard {}) (Text.ofString "1 /*") = .ok open' ∧
      (Text.ofString "1 /*").Single (.standard {}) ∧
      parse (.standard {}) (Text.ofString "1 /*; 2; 3") = .ok other ∧
      ∀ term, parse (.standard {}) (Text.ofString "(1 /*; 2); 3") ≠ .ok term := by
  obtain ⟨one, parsedOne⟩ := parse_isOk (by decide +kernel :
    (reading (.standard {}) (Text.ofString "x = 1")).isOk = true)
  obtain ⟨two, parsedTwo⟩ := parse_isOk (by decide +kernel :
    (reading (.standard {}) (Text.ofString "y = 2")).isOk = true)
  obtain ⟨last, parsedLast⟩ := parse_isOk (by decide +kernel :
    (reading (.standard {}) (Text.ofString "3")).isOk = true)
  obtain ⟨dropped, parsedDropped, codeDropped⟩ := parse_code (by decide +kernel : (reading (.standard {})
    (Text.ofString "(x = 1; y = 2); 3")).comesTo [.nested [.nested [.target (Text.ofString "x"),
      .nested [.literal (.int 1)], .binary (Text.ofString "="), .discard, .target (Text.ofString "y"),
      .nested [.literal (.int 2)], .binary (Text.ofString "=")], .discard, .literal (.int 3)]] = true)
  obtain ⟨flat, parsedFlat, codeFlat⟩ := parse_code (by decide +kernel : (reading (.standard {})
    (Text.ofString "x = 1; y = 2; 3")).comesTo [.nested [.target (Text.ofString "x"),
      .nested [.literal (.int 1)], .binary (Text.ofString "="), .discard, .nested [.target (Text.ofString "y"),
      .nested [.literal (.int 2)], .binary (Text.ofString "="), .discard, .literal (.int 3)]]] = true)
  obtain ⟨open', parsedOpen⟩ := parse_isOk (by decide +kernel :
    (reading (.standard {}) (Text.ofString "1 /*")).isOk = true)
  obtain ⟨other, parsedOther⟩ := parse_isOk (by decide +kernel :
    (reading (.standard {}) (Text.ofString "1 /*; 2; 3")).isOk = true)
  refine ⟨⟨one, two, last, dropped, flat, ⟨parsedOne, Text.single_of_tokens (by decide +kernel), ?_⟩,
    ⟨parsedTwo, Text.single_of_tokens (by decide +kernel), ?_⟩,
    ⟨parsedLast, Text.single_of_tokens (by decide +kernel), ?_⟩, parsedDropped, parsedFlat, ?_, ?_⟩,
    open', other, parsedOpen, Text.single_of_tokens (by decide +kernel), parsedOther, ?_⟩
  iterate 3 exact fun comment => absurd comment.slash (by decide)
  · rintro outcome after ⟨depth, came⟩
    have here : perform 4 (.run 0 dropped.code 0) blank = some (.ok (.int 3), blank) := by
      rw [codeDropped]
      rfl
    obtain ⟨rfl, rfl⟩ := perform_determined here came
    exact ⟨rfl, rfl⟩
  · rw [codeFlat]
    exact ⟨_, ⟨6, rfl⟩, rfl⟩
  · intro term accepted
    have refused : (reading (.standard {}) (Text.ofString "(1 /*; 2); 3")).isOk = false := by decide +kernel
    rw [isOk_of_parse accepted] at refused
    cases refused

end Formula
