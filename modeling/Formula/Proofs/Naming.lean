import Formula.Proofs.Joining

/-!
Names in a text. A name begins with a letter, an underscore, or a dollar sign right before a letter, and it goes
on as far as letters, digits and underscores do. Operators are no names, and neither are constants, unless a
point goes on with them.
-/

namespace Formula

/-- The texts that may be names. -/
inductive Text.IsName : Text → Prop
  | letter {first : CodePoint} {others : Text} (letter : Text.isLetter first = true)
      (goesOn : ∀ point ∈ others, Scan.isNamePart point = true) : IsName (first :: others)
  | underscore {others : Text} (goesOn : ∀ point ∈ others, Scan.isNamePart point = true) :
      IsName ('_'.toNat :: others)
  | dollar {second : CodePoint} {others : Text} (letter : Text.isLetter second = true)
      (goesOn : ∀ point ∈ others, Scan.isNamePart point = true) : IsName ('$'.toNat :: second :: others)

namespace Scan

variable {dialect : Dialect} {first : CodePoint} {rest word : Text} {size : Nat}

theorem isNamePart_of_isLetter {point : CodePoint} (letter : Text.isLetter point = true) :
    isNamePart point = true := by
  simp [isNamePart, letter]

theorem notMem_signs_of_isLetter {point : CodePoint} (letter : Text.isLetter point = true) : point ∉ signs := by
  intro sign
  rw [(by decide +kernel : ∀ point ∈ signs, Text.isLetter point = false) point sign] at letter
  cases letter

/-- The scanner of names takes all that a name may go on with. -/
theorem name?_iff : name? first rest = some (.name word, size) ↔
    word = first :: rest.takeWhile isNamePart ∧ size = (rest.takeWhile isNamePart).length ∧ word.IsName := by
  have goesOn : ∀ point ∈ rest.takeWhile isNamePart, isNamePart point = true := fun _ => List.mem_takeWhile_imp
  constructor
  · intro came
    simp only [name?, Option.ite_none_right_eq_some, Option.some.injEq, Prod.mk.injEq, Lexeme.name.injEq] at came
    obtain ⟨begins, rfl, rfl⟩ := came
    refine ⟨rfl, rfl, ?_⟩
    simp only [Bool.or_eq_true, Bool.and_eq_true, beq_iff_eq, or_assoc] at begins
    rcases begins with letter | rfl | ⟨rfl, next⟩
    · exact .letter letter goesOn
    · exact .underscore goesOn
    · -- The letter after the dollar sign is the first of the characters that the name goes on with.
      cases rest with
      | nil => cases next
      | cons second rest =>
          have letter : Text.isLetter second = true := next
          rw [List.takeWhile_cons_of_pos (isNamePart_of_isLetter letter)] at goesOn ⊢
          exact .dollar letter fun point among => goesOn point (List.mem_cons_of_mem _ among)
  · rintro ⟨rfl, rfl, named⟩
    have begins : (Text.isLetter first || first == '_'.toNat ||
        (first == '$'.toNat && rest.head?.any Text.isLetter)) = true := by
      generalize tail : rest.takeWhile isNamePart = others at named
      cases named with
      | letter letter => rw [letter, Bool.true_or, Bool.true_or]
      | underscore => simp
      | dollar letter =>
          cases rest with
          | nil => cases tail
          | cons second rest =>
              rw [List.takeWhile_cons] at tail
              split at tail
              · cases tail
                simp [letter]
              · cases tail
    simp only [name?, begins, if_true]

theorem notMem_signs_of_isName (named : Text.IsName (first :: rest)) : first ∉ signs := by
  cases named with
  | letter letter => exact notMem_signs_of_isLetter letter
  | underscore => decide
  | dollar => decide

/-- No other scanner finds a name. -/
theorem name?_of_scanned (scanned : Scanned dialect first rest (.name word, size)) :
    name? first rest = some (.name word, size) := by
  cases scanned with
  | radix came =>
      unfold radixInteger? at came
      split at came
      · split at came
        · cases came
        · simp only [Option.bind_eq_bind, Option.bind_eq_some_iff] at came
          obtain ⟨base, -, came⟩ := came
          split at came <;> cases came
      · cases came
  | number came => simp [number?, Option.bind_eq_some_iff] at came
  | operator came => simp [operator?, Option.bind_eq_some_iff] at came
  | text came =>
      unfold text? at came
      split at came
      · obtain ⟨size, -, came⟩ := Option.map_eq_some_iff.mp came
        cases read : unescape 1 (rest.take size) <;> rw [read] at came <;> cases came
      · cases came
  | punctuation came =>
      unfold punctuation? at came
      split_ifs at came <;> cases came
  | wordOperator came => simp [wordOperator?, Option.bind_eq_some_iff] at came
  | constant came => simp [constant?, Option.bind_eq_some_iff] at came
  | name came => exact came

/-- A name is found where the scanner of names finds one and those of operators and constants do not. -/
theorem token_name_iff : token dialect first rest = .ok (.name word, size) ↔
    name? first rest = some (.name word, size) ∧ wordOperator? dialect first rest = none ∧
      constant? dialect first rest = none := by
  constructor
  · intro came
    have named := name?_of_scanned (token_scanned came)
    obtain ⟨rfl, -, isName⟩ := name?_iff.mp named
    rw [token_word (notMem_signs_of_isName isName), named] at came
    cases operator : wordOperator? dialect first rest with
    | some found =>
        rw [operator] at came
        cases came
        exact absurd operator (by simp [wordOperator?, Option.bind_eq_some_iff])
    | none =>
        cases constant : constant? dialect first rest with
        | some found =>
            rw [operator, constant] at came
            cases came
            exact absurd constant (by simp [constant?, Option.bind_eq_some_iff])
        | none => exact ⟨named, rfl, rfl⟩
  · rintro ⟨named, operator, constant⟩
    obtain ⟨rfl, -, isName⟩ := name?_iff.mp named
    rw [token_word (notMem_signs_of_isName isName), operator, constant, named]
    rfl

theorem wordOperator?_none_iff (letter : Text.isLetter first = true) :
    wordOperator? dialect first rest = none ↔
      ¬(dialect.isOperatorWord (first :: rest.takeWhile isNamePart) = true ∧
        dialect.enables (first :: rest.takeWhile isNamePart) = true) := by
  simp only [wordOperator?, word?, letter, if_true, Option.bind_eq_bind, Option.bind_some, ← Bool.and_eq_true]
  split <;> simp_all

theorem wordOperator?_unlettered (noLetter : Text.isLetter first = false) :
    wordOperator? dialect first rest = none := by
  simp [wordOperator?, word?, noLetter]

theorem constant?_unlettered (noLetter : Text.isLetter first = false) : constant? dialect first rest = none := by
  simp [constant?, dottedWord?, noLetter]

/-- Where no point comes next, the scanner of constants sees the characters that a name would take. -/
theorem constant?_none_iff (letter : Text.isLetter first = true)
    (parted : (rest.dropWhile isNamePart).head? ≠ some '.'.toNat) :
    constant? dialect first rest = none ↔ dialect.constants.get? (first :: rest.takeWhile isNamePart) = none := by
  have dotted : rest.takeWhile (fun point => isNamePart point || point == '.'.toNat) = rest.takeWhile isNamePart := by
    induction rest with
    | nil => rfl
    | cons point rest ih =>
        by_cases part : isNamePart point = true
        · rw [List.dropWhile_cons_of_pos part] at parted
          rw [List.takeWhile_cons_of_pos part, List.takeWhile_cons_of_pos (by simp [part]), ih parted]
        · rw [List.dropWhile_cons_of_neg part] at parted
          have noPoint : point ≠ '.'.toNat := fun same => parted (congrArg some same)
          rw [List.takeWhile_cons_of_neg part, List.takeWhile_cons_of_neg (by simpa [part] using noPoint)]
  simp only [constant?, dottedWord?, letter, if_true, Option.bind_eq_bind, Option.bind_some, dotted]
  cases dialect.constants.get? (first :: rest.takeWhile isNamePart) <;> simp

end Scan

namespace Dialect

/-- Whether a word is an operator that is switched on. -/
def operatesWord (dialect : Dialect) (word : Text) : Bool := dialect.isOperatorWord word && dialect.enables word

variable {options : Options} {first : CodePoint} {others : Text}

theorem marks_of_standard (options : Options) (mark : CodePoint) (marks : mark = '_'.toNat ∨ mark = '$'.toNat)
    (others : Text) :
    (Dialect.standard options).isOperatorWord (mark :: others) = false ∧
      (Dialect.standard options).constants.get? (mark :: others) = none := by
  have absent {table : Table} (clear : ∀ entry ∈ table, entry.1.head? ≠ some mark) :
      table.get? (mark :: others) = none := by
    refine Option.eq_none_iff_forall_ne_some.mpr fun value found => ?_
    exact clear _ (Table.mem_of_get? found) rfl
  have clear : ∀ table ∈ [standardUnary, standardBinary, standardTernary, standardConstants],
      ∀ entry ∈ table, entry.1.head? ≠ some mark := by
    have heads : ∀ head ∈ (standardUnary ++ standardBinary ++ standardTernary ++ standardConstants).map
        (fun entry => entry.1.head?), head ≠ some '_'.toNat ∧ head ≠ some '$'.toNat := by decide
    intro table among entry inside
    obtain ⟨line, dollar⟩ := heads entry.1.head? (List.mem_map_of_mem (by
      simp only [List.mem_cons, List.not_mem_nil, or_false] at among
      simp only [List.mem_append]
      rcases among with rfl | rfl | rfl | rfl <;> simp [inside]))
    rcases marks with rfl | rfl
    · exact line
    · exact dollar
  constructor
  · simp [isOperatorWord, Table.holds, standard, absent (clear standardUnary (by simp)),
      absent (clear standardBinary (by simp)), absent (clear standardTernary (by simp))]
  · exact absent (clear standardConstants (by simp))

end Dialect

theorem Text.IsName.mark {first : CodePoint} {others : Text} (named : Text.IsName (first :: others))
    (noLetter : Text.isLetter first = false) : first = '_'.toNat ∨ first = '$'.toNat := by
  cases named with
  | letter letter => rw [noLetter] at letter; cases letter
  | underscore => exact .inl rfl
  | dollar => exact .inr rfl

namespace Scan

variable {options : Options} {first : CodePoint} {rest word : Text} {size : Nat}

theorem wordOperator?_standard (named : Text.IsName (first :: rest.takeWhile isNamePart)) :
    wordOperator? (.standard options) first rest = none ↔
      (Dialect.standard options).operatesWord (first :: rest.takeWhile isNamePart) = false := by
  cases letter : Text.isLetter first with
  | true =>
      rw [wordOperator?_none_iff letter, ← Bool.and_eq_true, Bool.not_eq_true]
      rfl
  | false =>
      have unlisted := (Dialect.marks_of_standard options first (named.mark letter) (rest.takeWhile isNamePart)).1
      rw [wordOperator?_unlettered letter, Dialect.operatesWord, unlisted]
      exact iff_of_true rfl rfl

theorem constant?_standard (named : Text.IsName (first :: rest.takeWhile isNamePart))
    (parted : (rest.dropWhile isNamePart).head? ≠ some '.'.toNat) :
    constant? (.standard options) first rest = none ↔
      (Dialect.standard options).constants.get? (first :: rest.takeWhile isNamePart) = none := by
  cases letter : Text.isLetter first with
  | true => exact constant?_none_iff letter parted
  | false =>
      have unlisted := (Dialect.marks_of_standard options first (named.mark letter) (rest.takeWhile isNamePart)).2
      rw [constant?_unlettered letter, unlisted]
      exact iff_of_true rfl rfl

/-- Which names are found in the standard dialects, and what comes after them. -/
theorem name_of_token (read : token (.standard options) first rest = .ok (.name word, size)) :
    word.IsName ∧ (Dialect.standard options).operatesWord word = false ∧ ∃ after, first :: rest = word ++ after ∧
      (∀ point, after.head? = some point → isNamePart point = false) ∧
      (after.head? = some '.'.toNat ∨ (Dialect.standard options).constants.get? word = none) := by
  obtain ⟨named, operator, constant⟩ := token_name_iff.mp read
  obtain ⟨rfl, -, isName⟩ := name?_iff.mp named
  refine ⟨isName, (wordOperator?_standard isName).mp operator, rest.dropWhile isNamePart, ?_, ?_, ?_⟩
  · rw [List.cons_append, List.takeWhile_append_dropWhile]
  · intro point next
    have stops := List.head?_dropWhile_not isNamePart rest
    rw [next] at stops
    exact stops
  · by_cases dotted : (rest.dropWhile isNamePart).head? = some '.'.toNat
    · exact .inl dotted
    · exact .inr ((constant?_standard isName dotted).mp constant)

/-- A name that is a text of its own is found whole. -/
theorem token_of_name {others : Text} (named : Text.IsName (first :: others))
    (noOperator : (Dialect.standard options).operatesWord (first :: others) = false)
    (noConstant : (Dialect.standard options).constants.get? (first :: others) = none) :
    token (.standard options) first others = .ok (.name (first :: others), others.length) := by
  have goesOn : ∀ point ∈ others, isNamePart point = true := by
    cases named with
    | letter _ goesOn => exact goesOn
    | underscore goesOn => exact goesOn
    | dollar letter goesOn => exact List.forall_mem_cons.mpr ⟨isNamePart_of_isLetter letter, goesOn⟩
  have whole : others.takeWhile isNamePart = others := List.takeWhile_eq_self_iff.mpr goesOn
  have nothing : others.dropWhile isNamePart = [] := List.dropWhile_eq_nil_iff.mpr goesOn
  have isName : Text.IsName (first :: others.takeWhile isNamePart) := by rwa [whole]
  refine token_name_iff.mpr ⟨name?_iff.mpr ⟨?_, ?_, named⟩, ?_, ?_⟩
  · rw [whole]
  · rw [whole]
  · rw [wordOperator?_standard isName, whole]
    exact noOperator
  · rw [constant?_standard isName (by rw [nothing]; nofun), whole]
    exact noConstant

theorem skip_name {others : Text} (word : first ∉ signs) :
    Cursor.skip ⟨0, first :: others⟩ = ⟨0, first :: others⟩ := by
  have visible : Cursor.isBlank first = false := by
    simp only [Cursor.isBlank, Bool.or_eq_false_iff, beq_eq_false_iff_ne, and_assoc]
    refine ⟨?_, ?_, ?_, ?_⟩ <;> exact ne_of_notMem_signs word (by decide)
  have noSlash : first ≠ '/'.toNat := ne_of_notMem_signs word (by decide)
  simp only [Cursor.skip, Cursor.skipGap, visible, noSlash, false_and, Bool.false_eq_true, if_false]

end Scan

theorem Tokens.name_of_delivered {options : Options} {source word : Text} {token : Token}
    (member : token ∈ (Tokens.ofText (.standard options) source).delivered) (named : token.lexeme = .name word) :
    word.IsName ∧ (Dialect.standard options).operatesWord word = false ∧
    ∃ after, source.drop token.position = word ++ after ∧
      (∀ point, after.head? = some point → Scan.isNamePart point = false) ∧
      (after.head? = some '.'.toNat ∨ (Dialect.standard options).constants.get? word = none) := by
  cases (Tokens.scan_places (Cursor.in_start source)).1 token member with
  | finish => cases named
  | here follows read =>
      cases named
      rw [follows]
      exact Scan.name_of_token read

/-- Names. A text is read as one name if and only if it may be a name and is neither an operator that is switched
on nor a constant. Wherever a name is read, it is such a text, unless a constant goes on with a point, and no
letter, digit or underscore follows it. -/
theorem names_scanned (options : Options) :
    (∀ text : Text, tokenize (.standard options) text = .ok [⟨.name text, 0⟩, ⟨.endOfText, text.length⟩] ↔
      text.IsName ∧ (Dialect.standard options).operatesWord text = false ∧
        (Dialect.standard options).constants.get? text = none) ∧
    ∀ source : Text, ∀ token ∈ (Tokens.ofText (.standard options) source).delivered, ∀ word : Text,
      token.lexeme = .name word →
        word.IsName ∧ (Dialect.standard options).operatesWord word = false ∧
        ∃ after, source.drop token.position = word ++ after ∧
          (∀ point, after.head? = some point → Scan.isNamePart point = false) ∧
          (after.head? = some '.'.toNat ∨ (Dialect.standard options).constants.get? word = none) := by
  refine ⟨fun text => ⟨fun came => ?_, ?_⟩, fun source token member word => Tokens.name_of_delivered member⟩
  · obtain ⟨-, delivered⟩ := Tokens.toList_eq_ok (toList_of_tokenize came)
    have member : ⟨.name text, 0⟩ ∈ (Tokens.ofText (.standard options) text).delivered := by
      rw [delivered]
      exact List.mem_cons_self
    obtain ⟨isName, noOperator, after, whole, -, noConstant⟩ := Tokens.name_of_delivered member rfl
    -- The name is the whole text, so that no point comes after it.
    obtain rfl : after = [] := List.append_right_eq_self.mp whole.symm
    exact ⟨isName, noOperator, noConstant.resolve_left nofun⟩
  · rintro ⟨isName, noOperator, noConstant⟩
    obtain ⟨first, others, rfl⟩ : ∃ first others, text = first :: others := by cases isName <;> exact ⟨_, _, rfl⟩
    have read := Scan.token_of_name isName noOperator noConstant
    have skipped : Cursor.skip ⟨0, first :: others⟩ = ⟨0, first :: others⟩ :=
      Scan.skip_name (Scan.notMem_signs_of_isName isName)
    have finished : Tokens.scan (.standard options) ⟨0 + others.length + 1, []⟩ =
        .finish (0 + others.length + 1) := Tokens.scan_finish rfl
    rw [tokenize, Tokens.ofText, Tokens.scan_token skipped read, List.drop_length, finished]
    simp [Tokens.toList, Except.map, Except.mapError]

/-- A constant that goes on with a point is read as a name. -/
theorem mem_dotted_constant : ⟨.name (Text.ofString "PI"), 0⟩ ∈
    (Tokens.ofText (.standard {}) (Text.ofString "PI.x")).delivered := by
  have read : tokenize (.standard {}) (Text.ofString "PI.x") = .ok [⟨.name (Text.ofString "PI"), 0⟩,
      ⟨.operator (Text.ofString "."), 2⟩, ⟨.name (Text.ofString "x"), 3⟩, ⟨.endOfText, 4⟩] := tokenize_within rfl
  rw [(Tokens.toList_eq_ok (toList_of_tokenize read)).2]
  exact List.mem_cons_self

/-- A name with a dollar sign is read, and so is a constant with a point after it. -/
theorem names_scanned_of_member :
    tokenize (.standard {}) (Text.ofString "$x") = .ok [⟨.name (Text.ofString "$x"), 0⟩, ⟨.endOfText, 2⟩] ∧
      ⟨.name (Text.ofString "PI"), 0⟩ ∈ (Tokens.ofText (.standard {}) (Text.ofString "PI.x")).delivered ∧
      (Text.ofString "PI").IsName ∧ (Dialect.standard {}).operatesWord (Text.ofString "PI") = false ∧
      ∃ after, (Text.ofString "PI.x").drop 0 = Text.ofString "PI" ++ after ∧ after.head? = some '.'.toNat := by
  obtain ⟨whole, everywhere⟩ := names_scanned {}
  obtain ⟨isName, noOperator, after, follows, -, dotted⟩ := everywhere _ _ mem_dotted_constant _ rfl
  have constant : (Dialect.standard {}).constants.get? (Text.ofString "PI") ≠ none := nofun
  refine ⟨?_, mem_dotted_constant, isName, noOperator, after, follows, dotted.resolve_right constant⟩
  exact (whole (Text.ofString "$x")).mpr
    ⟨.dollar (by decide +kernel) nofun, by decide +kernel, rfl⟩

/-- No name begins with a dollar sign and an underscore, though a letter comes later. A constant is a name where
a point goes on with it. -/
theorem dollar_needs_letter :
    let text := Text.ofString "$_a"
    (text.head? = some '$'.toNat ∧ (∀ point ∈ text.tail, Scan.isNamePart point = true) ∧
      (∃ point ∈ text, Text.isLetter point = true) ∧ (Dialect.standard {}).operatesWord text = false ∧
      (Dialect.standard {}).constants.get? text = none ∧
      tokenize (.standard {}) text ≠ .ok [⟨.name text, 0⟩, ⟨.endOfText, text.length⟩]) ∧
    ⟨.name (Text.ofString "PI"), 0⟩ ∈ (Tokens.ofText (.standard {}) (Text.ofString "PI.x")).delivered ∧
      (Dialect.standard {}).constants.get? (Text.ofString "PI") ≠ none := by
  intro text
  have broken : tokenize (.standard {}) text = .error ⟨⟨.unknownCharacter '$'.toNat, 0, none⟩, 1, 1⟩ := by
    rw [tokenize, Tokens.ofText, Tokens.scan_eq_scanWithin _ 3 _ (by decide)]
    rfl
  refine ⟨⟨rfl, by decide +kernel, ⟨'a'.toNat, by decide, by decide +kernel⟩, by decide +kernel, rfl, ?_⟩,
    mem_dotted_constant, Option.some_ne_none _⟩
  rw [broken]
  intro same
  cases same

end Formula
