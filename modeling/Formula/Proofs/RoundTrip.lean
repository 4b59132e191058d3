import Formula.Proofs.Enclosing
import Formula.Proofs.Grouping

/-!
Source text that reads back. The text of a faithful term is read as the same term, which has the same program.
-/

namespace Formula

/-- Whether an expression can begin with a token. -/
def Lexeme.starts : Lexeme → Bool
  | .operator _ | .number _ | .text _ | .name _ | .openParenthesis | .openBracket => true
  | _ => false

theorem Lexeme.starts_inside {lexeme : Lexeme} (starts : lexeme.starts = true) :
    Grammar.endsOperand lexeme = false ∧ Grammar.endsStatement lexeme = false ∧
      Grammar.isCloseParenthesis lexeme = false ∧ Grammar.isCloseBracket lexeme = false := by
  cases lexeme <;> first | exact ⟨rfl, rfl, rfl, rfl⟩ | cases starts

namespace Term

open Grammar (Parses Fills Lists)

variable {place : Place} {word : Text}

theorem lexeme_starts (word : Text) : word.lexeme.starts = true := by
  rw [Text.lexeme]
  split <;> rfl

theorem opening_starts (term : Term) : term.opening.starts = true := by
  cases term with
  | literal value => cases value <;> rfl
  | name word => exact lexeme_starts word
  | binary symbol left right =>
      rw [opening]
      split
      · exact opening_starts left
      · rfl
  | call callee arguments => exact opening_starts callee
  | member object key => exact opening_starts object
  | _ => rfl

/-- The tokens of a term begin with its first token. -/
theorem lexemes_opening (term : Term) : ∃ others, term.lexemes = term.opening :: others := by
  cases term with
  | binary symbol left right =>
      rw [lexemes, opening]
      split
      · obtain ⟨others, same⟩ := lexemes_opening left
        rw [same]
        exact ⟨_, rfl⟩
      · exact ⟨_, rfl⟩
  | call callee arguments =>
      obtain ⟨others, same⟩ := lexemes_opening callee
      rw [lexemes, same]
      exact ⟨_, rfl⟩
  | member object key =>
      obtain ⟨others, same⟩ := lexemes_opening object
      rw [lexemes, same]
      exact ⟨_, rfl⟩
  | _ => exact ⟨_, rfl⟩

theorem separated_opening (term : Term) (rest : List Term) :
    ∃ others, Lexeme.separated (lexemesAll (term :: rest)) = term.opening :: others := by
  obtain ⟨others, same⟩ := lexemes_opening term
  cases rest with
  | nil => exact ⟨others, same⟩
  | cons next rest =>
      rw [lexemesAll, lexemesAll, Lexeme.separated, same]
      exact ⟨_, rfl⟩

/-! Names and literals. -/

theorem parses_name (proper : word.Proper place) (other : Place) :
    Parses (.standard {}) other [word.lexeme] (.name word) := by
  rw [lexeme_of_proper proper]
  have accesses : Grammar.Accesses (.standard {}) [.name word] (.name word) :=
    Grammar.accesses_atom rfl fun _ _ whole => Grammar.derives_name whole
  exact accesses.parses other

theorem parses_operatorName (operator : OperatorName word place) :
    Parses (.standard {}) place [word.lexeme] (.name word) := by
  obtain ⟨known, unsigned, rfl⟩ := operator
  rw [lexeme_of_known known]
  rintro tokens rest ⟨position, _, rfl, rfl⟩ whole closes
  exact Grammar.derives_operatorName known unsigned whole closes

theorem parses_literal (value : Value) (place : Place) :
    Parses (.standard {}) place [value.lexeme] (.literal value) := by
  have accesses : Grammar.Accesses (.standard {}) [value.lexeme] (.literal value) := by
    cases value with
    | text content => exact Grammar.accesses_atom rfl fun _ _ whole => Grammar.derives_text whole
    | _ => exact Grammar.accesses_atom rfl fun _ _ whole => Grammar.derives_number whole
  exact accesses.parses place

/-- After a point every word is the name of a member, also the word of an operator. -/
theorem memberName_lexeme {key : Text} (named : key.IsName) : Grammar.memberName? key.lexeme = some key := by
  have words : ∀ entry ∈ standardBinary ++ standardUnary ++ standardTernary,
      entry.1.isIdentifier = true ∨ ∃ first ∈ entry.1.head?, first ∈ Scan.signs := by
    decide +kernel
  rw [Text.lexeme]
  split
  · rename_i listed
    have held : ∃ value, (key, value) ∈ standardBinary ++ standardUnary ++ standardTernary := by
      simp only [Dialect.isOperatorWord, Bool.or_eq_true, Table.holds, Option.isSome_iff_exists] at listed
      rcases listed with (⟨value, found⟩ | ⟨value, found⟩) | ⟨value, found⟩
      · exact ⟨value, List.mem_append_left _ (List.mem_append_left _ (Table.mem_of_get? found))⟩
      · exact ⟨value, List.mem_append_left _ (List.mem_append_right _ (Table.mem_of_get? found))⟩
      · exact ⟨value, List.mem_append_right _ (Table.mem_of_get? found)⟩
    obtain ⟨value, held⟩ := held
    rcases words _ held with identifier | ⟨first, starts, sign⟩
    · exact if_pos identifier
    · obtain ⟨others, rfl⟩ := List.head?_eq_some_iff.mp starts
      exact absurd sign (Scan.notMem_signs_of_isName named)
  · rfl

/-! The head of a definition. -/

theorem signature_names (function : Text) (parameters : List Text) :
    Grammar.signature? (.name function) (parameters.map .name) = some (function, parameters) := by
  have names : (parameters.map Term.name).mapM Term.name? = some parameters := by
    induction parameters with
    | nil => rfl
    | cons parameter parameters ih => simp [ih, name?]
  simp [Grammar.signature?, name?, names]

theorem lists_parameters {callee : Term} (parameters : List Text) (filled : parameters ≠ [])
    (proper : ∀ parameter ∈ parameters, parameter.Proper .ended ∨ OperatorName parameter .ended) :
    Lists (.standard {}) (.call callee) (Lexeme.separated (parameters.map fun parameter => [parameter.lexeme]))
      (parameters.map .name) := by
  induction parameters with
  | nil => exact absurd rfl filled
  | cons parameter parameters ih =>
      obtain ⟨here, later⟩ := List.forall_mem_cons.mp proper
      have parses : Parses (.standard {}) .ended [parameter.lexeme] (.name parameter) :=
        here.elim (fun proper => parses_name proper .ended) parses_operatorName
      cases parameters with
      | nil => exact Grammar.lists_last parses
      | cons next parameters => exact Grammar.lists_next parses (ih (List.cons_ne_nil _ _) later)

theorem applies_signature {function : Text} (parameters : List Text) (properFunction : function.Proper .called)
    (proper : ∀ parameter ∈ parameters, parameter.Proper .ended ∨ OperatorName parameter .ended) :
    Grammar.Applies (.standard {})
      ([function.lexeme] ++ Lexeme.enclosed (Lexeme.separated (parameters.map fun parameter => [parameter.lexeme])))
      (.call (.name function) (parameters.map .name)) := by
  have applies : Grammar.Applies (.standard {}) [function.lexeme] (.name function) := parses_name properFunction .called
  cases parameters with
  | nil => exact Grammar.applies_emptyCall applies
  | cons parameter parameters =>
      have lists : Lists (.standard {}) (.call (.name function)) _ _ :=
        lists_parameters (parameter :: parameters) (List.cons_ne_nil _ _) proper
      obtain ⟨others, same⟩ : ∃ others, Lexeme.separated ((parameter :: parameters).map fun name => [name.lexeme]) =
          parameter.lexeme :: others := by
        cases parameters <;> exact ⟨_, rfl⟩
      rw [same] at lists ⊢
      exact Grammar.applies_call (Lexeme.starts_inside (lexeme_starts parameter)).2.2.1 applies lists

/-! Operators between operands. -/

section

variable {symbol : Text} {left right : Term} {first second : List Lexeme}

theorem fills_strict (listed : symbol ∈ strictSymbols) (other : symbol ≠ indexSymbol)
    (one : Grammar.Reads (.standard {}) .atom first left) (two : Grammar.Ends (.standard {}) second right) :
    Fills (.standard {}) (first ++ .operator symbol :: second) (.binary symbol left right) := by
  simp only [strictSymbols, List.mem_append, List.mem_cons, List.not_mem_nil, or_false, or_assoc] at listed
  rcases listed with comparison | sum | product | rfl | rfl
  · exact Grammar.fills_binary comparison one two
  · exact Grammar.fills_binary sum one two
  · exact Grammar.fills_binary product one two
  · exact Grammar.fills_power one two
  · exact absurd rfl other

theorem fills_lazy (listed : symbol ∈ lazySymbols)
    (one : Grammar.Reads (.standard {}) .atom first left) (two : Grammar.Ends (.standard {}) second right) :
    Fills (.standard {}) (first ++ .operator symbol :: second) (.shortCircuit symbol left right) := by
  rcases List.mem_append.mp listed with disjunction | conjunction
  · exact Grammar.fills_binary disjunction one two
  · exact Grammar.fills_binary conjunction one two

end

/-! Whole terms. -/

/-- Whether the tokens of a term are read as this term in some place, and what is in its parentheses too. -/
structure Restored (term : Term) (place : Place) : Prop where
  parses : Parses (.standard {}) place term.lexemes term
  inner : term.isEnclosed = true → ∃ inner, term.lexemes = Lexeme.enclosed inner ∧ Fills (.standard {}) inner term

theorem restored_enclosed {term : Term} {inner : List Lexeme} (same : term.lexemes = Lexeme.enclosed inner)
    (fills : Fills (.standard {}) inner term) (place : Place) : Restored term place where
  parses := same ▸ fills.accesses.parses place
  inner _ := ⟨inner, same, fills⟩

theorem restored_prefix {symbol : Text} {operand : Term} (known : (Dialect.standard {}).isPrefixOperator symbol = true)
    (other : symbol ≠ Text.ofString "!") (restored : Restored operand .ended)
    (taken : Grammar.isSign symbol ∨
      (Grammar.isOpenParenthesis operand.opening = true → operand.isEnclosed = true)) (place : Place) :
    Restored (.unary symbol operand) place := by
  have same : (unary symbol operand).lexemes = Lexeme.enclosed (.operator symbol :: operand.lexemes) := by
    rw [lexemes, if_neg other]
  by_cases sign : Grammar.isSign symbol
  · exact restored_enclosed same (Grammar.fills_sign sign known restored.parses) place
  refine restored_enclosed same ?_ place
  cases opens : Grammar.isOpenParenthesis operand.opening with
  | true =>
      obtain ⟨inner, sameInner, fills⟩ := restored.inner (taken.resolve_left sign opens)
      rw [sameInner]
      exact Grammar.fills_prefixOpen known sign fills
  | false =>
      obtain ⟨others, sameOperand⟩ := lexemes_opening operand
      have ends : Grammar.Ends (.standard {}) operand.lexemes operand := restored.parses
      rw [sameOperand] at ends ⊢
      exact Grammar.fills_prefix known opens (Lexeme.starts_inside operand.opening_starts).1 ends

mutual

/-- The tokens of a faithful term are read as the term. -/
theorem restored_lexemes (term : Term) {place : Place} (faithful : term.Faithful place) : Restored term place := by
  -- A part is restored in the place that the tokens around it put it in, which is the one it is faithful in.
  cases term with
  | literal value => exact ⟨parses_literal value place, nofun⟩
  | name word =>
      refine ⟨?_, nofun⟩
      rcases faithful with proper | operator
      · exact parses_name proper place
      · exact parses_operatorName operator
  | unary symbol operand =>
      rw [Faithful] at faithful
      split_ifs at faithful with factorial
      · subst factorial
        have inner : Grammar.Reads (.standard {}) .atom operand.lexemes operand :=
          (restored_lexemes operand faithful).parses
        refine restored_enclosed ?_ (Grammar.reads_factorial (inner.weaken (by decide))).fills place
        rw [lexemes, if_pos rfl]
      · obtain ⟨known, operandFaithful, taken⟩ := faithful
        exact restored_prefix known factorial (restored_lexemes operand operandFaithful) taken place
  | binary symbol left right =>
      rw [Faithful] at faithful
      split_ifs at faithful with index
      · subst index
        obtain ⟨leftFaithful, rightFaithful⟩ := faithful
        have object : Grammar.Accesses (.standard {}) left.lexemes left := (restored_lexemes left leftFaithful).parses
        have inner : Grammar.Reads (.standard {}) .atom right.lexemes right :=
          (restored_lexemes right rightFaithful).parses
        refine ⟨?_, fun enclosed => absurd enclosed (by simp [isEnclosed])⟩
        rw [lexemes, if_pos rfl]
        exact (Grammar.accesses_index (Scan.enables_standard _) object inner).parses place
      · obtain ⟨listed, leftFaithful, rightFaithful⟩ := faithful
        have one : Grammar.Reads (.standard {}) .atom left.lexemes left := (restored_lexemes left leftFaithful).parses
        have two : Grammar.Ends (.standard {}) right.lexemes right := (restored_lexemes right rightFaithful).parses
        refine restored_enclosed (by rw [lexemes, if_neg index]) ?_ place
        exact fills_strict listed index one two
  | shortCircuit symbol left right =>
      obtain ⟨listed, leftFaithful, rightFaithful⟩ := faithful
      have one : Grammar.Reads (.standard {}) .atom left.lexemes left := (restored_lexemes left leftFaithful).parses
      have two : Grammar.Ends (.standard {}) right.lexemes right := (restored_lexemes right rightFaithful).parses
      exact restored_enclosed (by rw [lexemes]) (fills_lazy listed one two.fills.ends) place
  | conditional condition yes no =>
      obtain ⟨conditionFaithful, yesFaithful, noFaithful⟩ := faithful
      have asked : Grammar.Reads (.standard {}) .atom condition.lexemes condition :=
        (restored_lexemes condition conditionFaithful).parses
      have one : Grammar.Ends (.standard {}) yes.lexemes yes := (restored_lexemes yes yesFaithful).parses
      have two : Grammar.Ends (.standard {}) no.lexemes no := (restored_lexemes no noFaithful).parses
      have reads := Grammar.reads_conditional (asked.weaken (Strength.rank_le_atom _))
        (one.fills.reads.weaken (Nat.zero_le _)) (two.fills.reads.weaken (Nat.zero_le _))
      exact restored_enclosed (by rw [lexemes]; rfl) reads.fills place
  | assign target value =>
      obtain ⟨proper, valueFaithful⟩ := faithful
      have right : Grammar.Ends (.standard {}) value.lexemes value := (restored_lexemes value valueFaithful).parses
      exact restored_enclosed (by rw [lexemes])
        (Grammar.fills_assign (.name target) (parses_name proper .joined) right.fills) place
  | assignMember object key value =>
      obtain ⟨objectFaithful, ⟨named, free⟩, valueFaithful⟩ := faithful
      have left : Grammar.Accesses (.standard {}) object.lexemes object := (restored_lexemes object objectFaithful).parses
      have right : Grammar.Ends (.standard {}) value.lexemes value := (restored_lexemes value valueFaithful).parses
      have target := (Grammar.accesses_member rfl (memberName_lexeme named) left).applies.reads
      exact restored_enclosed (by rw [lexemes]) (Grammar.fills_assign (.member object key) target right.fills) place
  | define function parameters body =>
      obtain ⟨proper, parametersProper, bodyFaithful⟩ := faithful
      have right : Grammar.Ends (.standard {}) body.lexemes body := (restored_lexemes body bodyFaithful).parses
      have target := (applies_signature parameters proper parametersProper).reads
      exact restored_enclosed (by rw [lexemes])
        (Grammar.fills_assign (.definition rfl (signature_names function parameters)) target right.fills) place
  | call callee arguments =>
      obtain ⟨⟨noIndex, noPoint⟩, calleeFaithful, argumentsFaithful⟩ := faithful
      have applies : Grammar.Applies (.standard {}) callee.lexemes callee := (restored_lexemes callee calleeFaithful).parses
      refine ⟨?_, nofun⟩
      rw [lexemes]
      cases arguments with
      | nil => exact (Grammar.applies_emptyCall applies).parses noIndex noPoint
      | cons argument rest =>
          have lists := lists_lexemesAll (argument :: rest) (.call callee) (List.cons_ne_nil _ _) argumentsFaithful
          obtain ⟨others, same⟩ := separated_opening argument rest
          rw [same] at lists ⊢
          exact (Grammar.applies_call (Lexeme.starts_inside argument.opening_starts).2.2.1 applies lists).parses
            noIndex noPoint
  | member object key =>
      obtain ⟨objectFaithful, named, -⟩ := faithful
      have left : Grammar.Accesses (.standard {}) object.lexemes object := (restored_lexemes object objectFaithful).parses
      refine ⟨?_, nofun⟩
      rw [lexemes]
      exact (Grammar.accesses_member rfl (memberName_lexeme named) left).parses place
  | array items =>
      refine ⟨?_, nofun⟩
      rw [lexemes]
      cases items with
      | nil => exact Grammar.accesses_emptyArray.parses place
      | cons item rest =>
          have lists := lists_lexemesAll (item :: rest) .array (List.cons_ne_nil _ _) faithful
          obtain ⟨others, same⟩ := separated_opening item rest
          rw [same] at lists ⊢
          exact (Grammar.accesses_array (Lexeme.starts_inside item.opening_starts).2.2.2 lists).parses place
  | statement body => exact faithful.elim
  | sequence first rest =>
      obtain ⟨firstFaithful, restFaithful⟩ := faithful
      have one : Grammar.Ends (.standard {}) first.lexemes first := (restored_lexemes first firstFaithful).parses
      have two : Grammar.Ends (.standard {}) rest.lexemes rest := (restored_lexemes rest restFaithful).parses
      obtain ⟨others, same⟩ := lexemes_opening rest
      rw [same] at two
      refine restored_enclosed (by rw [lexemes, same]) ?_ place
      exact Grammar.fills_sequence (Lexeme.starts_inside rest.opening_starts).2.1 one two

/-- The tokens of the items of a list are read as the items. -/
theorem lists_lexemesAll (terms : List Term) (shape : ListShape) (filled : terms ≠ [])
    (faithful : FaithfulAll terms (Grammar.lastPlace shape)) :
    Lists (.standard {}) shape (Lexeme.separated (lexemesAll terms)) terms := by
  match terms with
  | [] => exact absurd rfl filled
  | [term] => exact Grammar.lists_last (restored_lexemes term faithful).parses
  | term :: next :: rest =>
      obtain ⟨here, later⟩ := faithful
      exact Grammar.lists_next (restored_lexemes term here).parses
        (lists_lexemesAll (next :: rest) shape (List.cons_ne_nil _ _) later)

end

/-! A semicolon that nothing comes after. -/

/-- The term without the semicolons at its end. -/
def unended : Term → Term
  | .statement body => body.unended
  | .sequence first rest => .sequence first rest.unended
  | term => term

/-- The source text of a term is read as the term without the semicolons at its end. -/
theorem ends_written (heap : Heap) (term : Term) (faithful : term.unended.Faithful .ended) :
    ∃ first others, first.starts = true ∧ Place.Lexes .ended (term.written heap) (first :: others) ∧
      Grammar.Ends (.standard {}) (first :: others) term.unended := by
  cases term with
  | statement body =>
      obtain ⟨first, others, -, lexes, ends⟩ := ends_written heap body faithful
      exact ⟨_, _, rfl, lexes.enclosed, ends.fills.ends⟩
  | sequence one rest =>
      obtain ⟨oneFaithful, restFaithful⟩ := faithful
      obtain ⟨first, others, starts, lexes, ends⟩ := ends_written heap rest restFaithful
      have later := lexes.cons ';'.toNat .semicolon rfl (by decide) fun _ _ => rfl
      have both := (lexes_written heap one oneFaithful).append later fun tail _ => .sign (by decide)
      have ended : Grammar.Ends (.standard {}) one.lexemes one := (restored_lexemes one oneFaithful).parses
      refine ⟨_, _, rfl, ?_, (Grammar.fills_sequence (Lexeme.starts_inside starts).2.1 ended ends).ends⟩
      have whole : Place.Lexes .ended _ _ := both.enclosed
      simpa [written, Rendering.sign, Lexeme.enclosed] using whole
  | _ =>
      obtain ⟨others, same⟩ := lexemes_opening _
      have ends : Grammar.Ends (.standard {}) _ _ := (restored_lexemes _ faithful).parses
      exact ⟨_, others, opening_starts _, same ▸ lexes_written heap _ faithful, same ▸ ends⟩

/-- A term comes to the same without the semicolons at its end. -/
theorem runs_unended (term : Term) (ordinary : term.ordinary = true) {dialect scope : Nat} {state after : State}
    {outcome : Except Failure Value} :
    Machine.Runs dialect term.unended.code scope state outcome after ↔
      Machine.Runs dialect term.code scope state outcome after := by
  cases term with
  | statement body => exact (runs_unended body ordinary).trans Machine.runs_nested.symm
  | sequence first rest =>
      obtain ⟨ordinaryFirst, ordinaryRest⟩ := Bool.and_eq_true_iff.mp ordinary
      have disciplined := (first.code_coded ordinaryFirst).disciplined first.shape_ne_target
      refine (Machine.runs_nested.trans ?_).trans Machine.runs_nested.symm
      exact ⟨Machine.runs_rest disciplined fun _ _ _ => (runs_unended rest ordinaryRest).mp,
        Machine.runs_rest disciplined fun _ _ _ => (runs_unended rest ordinaryRest).mpr⟩
  | _ => exact Iff.rfl

end Term

open Machine

/-- The text that an expression is turned into is accepted, and what it denotes comes to the same as the
expression in every scope and state, if the expression is faithful: it is the same expression then, but for the
semicolons at its end. -/
theorem rendering_reads_back (heap : Heap) {source : Text} {term : Term} (parsed : parse (.standard {}) source = .ok term)
    (faithful : term.unended.Faithful .ended) :
    ∃ text, term.code.render heap = .ok text ∧ parse (.standard {}) text = .ok term.unended ∧
      ∀ dialect scope state outcome after,
        Runs dialect term.unended.code scope state outcome after ↔ Runs dialect term.code scope state outcome after := by
  obtain ⟨first, others, -, lexes, ends⟩ := term.ends_written heap faithful
  have lexed := lexes [] [] .nothing (.finish .nil)
  rw [List.append_nil, List.append_nil] at lexed
  -- What is written and what is read meet at the tokens of the text.
  obtain ⟨tokens, last, spelled, scanned⟩ := lexed.scan 0
  have spells := Tokens.spells_lay tokens (.finish last)
  rw [spelled] at spells
  have expression := ends.expression spells rfl rfl rfl
  have read := Grammar.readAll_of_derives (spells.whole rfl) expression
  rw [← scanned] at read
  refine ⟨term.written heap, term.render_code heap, ?_, fun _ _ _ _ _ => ?_⟩
  · simp only [parse, Tokens.ofText, read]
    rfl
  · exact term.runs_unended (Term.ordinary_of_disciplined (parse_disciplined parsed))

/-- An assignment to a member, and a semicolon at the end. -/
theorem rendering_reads_back_of_member :
    ∃ term : Term, parse (.standard {}) (Text.ofString "m.k = -f([x, true][0], 2)!; m.k;") = .ok term ∧
      term.unended.Faithful .ended ∧
      parse (.standard {}) (Text.ofString "((m.k = ((-(f([x, true][0], 2)!))));(m.k))") = .ok term.unended ∧
      ∀ dialect scope state outcome after,
        Runs dialect term.unended.code scope state outcome after ↔ Runs dialect term.code scope state outcome after := by
  let item : Term := .binary Term.indexSymbol
    (.array [.name (Text.ofString "x"), .literal (.bool true)]) (.literal (.int 0))
  let value : Term := .unary (Text.ofString "-")
    (.unary (Text.ofString "!") (.call (.name (Text.ofString "f")) [item, .literal (.int 2)]))
  let term : Term := .sequence (.assignMember (.name (Text.ofString "m")) (Text.ofString "k") value)
    (.statement (.member (.name (Text.ofString "m")) (Text.ofString "k")))
  have parsed : parse (.standard {}) (Text.ofString "m.k = -f([x, true][0], 2)!; m.k;") = .ok term :=
    parse_of_reads (by decide +kernel)
  have faithful : term.unended.Faithful .ended := by decide +kernel
  obtain ⟨text, rendered, read, same⟩ := rendering_reads_back {} parsed faithful
  have written : term.code.render {} = .ok (Text.ofString "((m.k = ((-(f([x, true][0], 2)!))));(m.k))") := rfl
  obtain rfl := Except.ok.inj (rendered.symm.trans written)
  exact ⟨term, parsed, faithful, read, same⟩

/-- The parentheses around a call are not written, and no point can follow a call. -/
theorem rendering_loses_parentheses :
    ∃ term, parse (.standard {}) (Text.ofString "(min(3, 4)).real") = .ok term ∧
      ∀ heap, term.code.render heap = .ok (Text.ofString "min(3, 4).real") ∧
        ∀ again, parse (.standard {}) (Text.ofString "min(3, 4).real") ≠ .ok again := by
  obtain ⟨term, parsed, code⟩ := parse_code (by decide +kernel : (reading (.standard {})
    (Text.ofString "(min(3, 4)).real")).comesTo [.name (Text.ofString "min"), .literal (.int 3), .literal (.int 4),
      .call 2, .member (Text.ofString "real")] = true)
  refine ⟨term, parsed, fun heap => ⟨?_, fun again accepted => ?_⟩⟩
  · rw [code]
    rfl
  · have refused : (reading (.standard {}) (Text.ofString "min(3, 4).real")).isOk = false := by decide +kernel
    rw [isOk_of_parse accepted] at refused
    cases refused

end Formula
