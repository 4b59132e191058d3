import Formula.Proofs.Construction
import Formula.Proofs.Places
import Formula.Proofs.Writing

/-!
Faithful terms: those whose source text means the same term again. All parentheses around operators are written, so
it depends only on what stands right after each part whether its tokens stay apart and are read as they were meant.
-/

namespace Formula

namespace Lexeme

def enclosed (lexemes : List Lexeme) : List Lexeme := .openParenthesis :: (lexemes ++ [.closeParenthesis])

/-- Items with commas between them. -/
def separated : List (List Lexeme) → List Lexeme
  | [] => []
  | [item] => item
  | item :: next :: rest => item ++ .comma :: separated (next :: rest)

end Lexeme

namespace Term

mutual

/-- The tokens of the source text of a term. -/
def lexemes : Term → List Lexeme
  | .literal value => [value.lexeme]
  | .name word => [word.lexeme]
  | .unary symbol operand =>
    Lexeme.enclosed (if symbol = Text.ofString "!" then operand.lexemes ++ [.operator symbol]
      else .operator symbol :: operand.lexemes)
  | .binary symbol left right =>
    if symbol = indexSymbol then left.lexemes ++ .openBracket :: (right.lexemes ++ [.closeBracket])
    else Lexeme.enclosed (left.lexemes ++ .operator symbol :: right.lexemes)
  | .shortCircuit symbol left right =>
    Lexeme.enclosed (left.lexemes ++ .operator symbol :: Lexeme.enclosed right.lexemes)
  | .conditional condition yes no =>
    Lexeme.enclosed (condition.lexemes ++ .operator conditionSymbol ::
      (Lexeme.enclosed yes.lexemes ++ .operator (Text.ofString ":") :: Lexeme.enclosed no.lexemes))
  | .assign target value =>
    Lexeme.enclosed ([target.lexeme] ++ .operator assignSymbol :: Lexeme.enclosed value.lexemes)
  | .assignMember object key value =>
    Lexeme.enclosed ((object.lexemes ++ [.operator (Text.ofString "."), key.lexeme]) ++
      .operator assignSymbol :: Lexeme.enclosed value.lexemes)
  | .define function parameters body =>
    Lexeme.enclosed (([function.lexeme] ++
      Lexeme.enclosed (Lexeme.separated (parameters.map fun parameter => [parameter.lexeme]))) ++
        .operator assignSymbol :: Lexeme.enclosed body.lexemes)
  | .call callee arguments => callee.lexemes ++ Lexeme.enclosed (Lexeme.separated (lexemesAll arguments))
  | .member object key => object.lexemes ++ [.operator (Text.ofString "."), key.lexeme]
  | .array items => .openBracket :: (Lexeme.separated (lexemesAll items) ++ [.closeBracket])
  | .statement body => Lexeme.enclosed body.lexemes
  | .sequence first rest => Lexeme.enclosed (first.lexemes ++ .semicolon :: rest.lexemes)

def lexemesAll : List Term → List (List Lexeme)
  | [] => []
  | term :: rest => term.lexemes :: lexemesAll rest

end

/-- The first token of the source text. -/
def opening : Term → Lexeme
  | .literal value => value.lexeme
  | .name word => word.lexeme
  | .binary symbol left _ => if symbol = indexSymbol then left.opening else .openParenthesis
  | .call callee _ => callee.opening
  | .member object _ => object.opening
  | .array _ => .openBracket
  | _ => .openParenthesis

/-- Whether the source text is an expression in parentheses. -/
def isEnclosed : Term → Bool
  | .literal _ | .name _ | .call _ _ | .member _ _ | .array _ => false
  | .binary symbol _ _ => symbol ≠ indexSymbol
  | _ => true

/-- Whether the name of an operator is a value here. -/
structure OperatorName (word : Text) (place : Place) : Prop where
  known : (Dialect.standard {}).isPrefixOperator word = true
  unsigned : ¬Grammar.isSign word
  ended : place = .ended

mutual

/-- Whether a term is read back from its source text in some place. Parentheses are written around operators only,
so that no index and no point can follow a call, and what a word operator before a parenthesis takes must end
where the parenthesis does. A statement with nothing after its semicolon is not written with it. -/
def Faithful : Term → Place → Prop
  | .literal value, place => value.Literal place
  | .name word, place => word.Proper place ∨ OperatorName word place
  | .unary symbol operand, _ =>
    if symbol = Text.ofString "!" then operand.Faithful .joined
    else (Dialect.standard {}).isPrefixOperator symbol = true ∧ operand.Faithful .ended ∧
      (Grammar.isSign symbol ∨ (Grammar.isOpenParenthesis operand.opening = true → operand.isEnclosed = true))
  | .binary symbol left right, _ =>
    if symbol = indexSymbol then left.Faithful .indexed ∧ right.Faithful .joined
    else symbol ∈ strictSymbols ∧ left.Faithful .joined ∧ right.Faithful .ended
  | .shortCircuit symbol left right, _ =>
    symbol ∈ lazySymbols ∧ left.Faithful .joined ∧ right.Faithful .ended
  | .conditional condition yes no, _ =>
    condition.Faithful .joined ∧ yes.Faithful .ended ∧ no.Faithful .ended
  | .assign target value, _ => target.Proper .joined ∧ value.Faithful .ended
  | .assignMember object key value, _ =>
    object.Faithful .dotted ∧ (key.IsName ∧ key.Free .joined) ∧ value.Faithful .ended
  | .define function parameters body, _ =>
    function.Proper .called ∧
      (∀ parameter ∈ parameters, parameter.Proper .ended ∨ OperatorName parameter .ended) ∧ body.Faithful .ended
  | .call callee arguments, place =>
    (place ≠ .indexed ∧ place ≠ .dotted) ∧ callee.Faithful .called ∧ FaithfulAll arguments .ended
  | .member object key, place => object.Faithful .dotted ∧ key.IsName ∧ key.Free place
  | .array items, _ => FaithfulAll items .joined
  | .statement _, _ => False
  | .sequence first rest, _ => first.Faithful .ended ∧ rest.Faithful .ended

/-- The items of a list have commas after them, but for the last. -/
def FaithfulAll : List Term → Place → Prop
  | [], _ => True
  | [term], place => term.Faithful place
  | term :: next :: rest, place => term.Faithful .ended ∧ FaithfulAll (next :: rest) place

end

end Term

/-- A point before anything but a digit is a token by itself. -/
theorem Scan.token_point {first : CodePoint} (noDigit : Text.isDigit first = false) (rest : Text) :
    token (.standard {}) '.'.toNat (first :: rest) = .ok (.operator (Text.ofString "."), 0) := by
  have digitless : ¬Text.isDigit first = true := by rw [noDigit]; decide
  have noNumber : number? '.'.toNat (first :: rest) = none := by
    have decimal : Reading.decimal? ('.'.toNat :: first :: rest) = none := by
      rw [Reading.decimal?_point (List.dropWhile_cons_of_neg (by decide)), List.takeWhile_cons_of_neg digitless]
      exact if_pos ⟨rfl, rfl⟩
    simp only [number?, decimal]
    rfl
  simp only [token, noNumber]
  rfl

namespace Place

open Rendering (sign)

namespace Lexes

variable {place : Place} {text left right : Text} {lexemes first second : List Lexeme} {symbol : Text}

/-- Parentheses around a text. -/
theorem enclosed (inner : Lexes .ended text lexemes) :
    place.Lexes (Rendering.enclosed '(' text ')') (Lexeme.enclosed lexemes) := by
  intro tail others _ later
  have closes := inner (')'.toNat :: tail) (.closeParenthesis :: others) (.sign (by decide)) later.closeParenthesis
  simpa [Rendering.enclosed, Lexeme.enclosed] using closes.openParenthesis

/-- Brackets around a text. -/
theorem bracketed (inner : Lexes .joined text lexemes) :
    place.Lexes (Rendering.enclosed '[' text ']') (.openBracket :: (lexemes ++ [.closeBracket])) := by
  intro tail others _ later
  have closed : Lexed (.standard {}) (']'.toNat :: tail) (.closeBracket :: others) :=
    later.sign rfl (by decide) fun _ => rfl
  have inside := inner (']'.toNat :: tail) (.closeBracket :: others) (.sign (by decide)) closed
  have opened : Lexed (.standard {}) ('['.toNat :: (text ++ ']'.toNat :: tail))
      (.openBracket :: (lexemes ++ .closeBracket :: others)) := inside.sign rfl (by decide) fun _ => rfl
  simpa [Rendering.enclosed] using opened

/-- An operator with a space on either side. -/
theorem operator (one : Lexes .joined left first) (two : place.Lexes right second)
    (spelled : ∃ begins others, Scan.Spelled (.standard {}) (.operator symbol) begins others) :
    place.Lexes (left ++ sign ' ' ++ symbol ++ sign ' ' ++ right) (first ++ .operator symbol :: second) := by
  intro tail others before later
  obtain ⟨begins, more, spelled⟩ := spelled
  have written : symbol = begins :: more := spelled.written
  have goesOn := (two tail others before later).space
  have token : Lexed (.standard {}) (begins :: (more ++ ' '.toNat :: (right ++ tail)))
      (.operator symbol :: (second ++ others)) := by
    refine @Lexed.token _ [] _ begins _ more.length _ .nil ?_ (spelled.read _ (.inr ⟨_, rfl⟩)) ?_
    · rintro _ _ ⟨⟩
      refine ⟨spelled.visible, fun comment => ?_⟩
      rw [spelled.noComment comment.1] at comment
      cases comment.2
    · rwa [List.drop_left]
  have whole := one _ _ (.sign (by decide)) token.space
  simpa [sign, written] using whole

/-- A text before another that comes right after it. -/
theorem append {near : Place} (one : near.Lexes left first) (two : place.Lexes right second)
    (follows : ∀ tail, place.Before tail → near.Before (right ++ tail)) :
    place.Lexes (left ++ right) (first ++ second) := by
  intro tail others before later
  rw [List.append_assoc, List.append_assoc]
  exact one _ _ (follows tail before) (two tail others before later)

/-- A sign that is a token by itself before a text. -/
theorem cons (point : CodePoint) (lexeme : Lexeme) (visible : Cursor.isBlank point = false)
    (noSlash : point ≠ '/'.toNat)
    (read : ∀ tail, place.Before tail → Scan.token (.standard {}) point (right ++ tail) = .ok (lexeme, 0))
    (two : place.Lexes right second) : place.Lexes (point :: right) (lexeme :: second) := by
  intro tail others before later
  refine @Lexed.token _ [] _ point lexeme 0 _ .nil ?_ (read tail before) (two tail others before later)
  rintro _ _ ⟨⟩
  exact ⟨visible, fun comment => noSlash comment.1⟩

theorem space (two : place.Lexes right second) : place.Lexes (' '.toNat :: right) second := by
  intro tail others before later
  exact (two tail others before later).space

theorem nil : place.Lexes [] [] := fun _ _ _ later => later

/-- A comma between two items. -/
theorem comma (one : Lexes .ended left first) (two : place.Lexes right second) :
    place.Lexes (left ++ Text.ofString ", " ++ right) (first ++ .comma :: second) := by
  have joined := one.append (two.space.cons ','.toNat .comma rfl (by decide) fun _ _ => rfl)
    fun tail _ => .sign (by decide)
  simpa [Text.ofString] using joined

/-- A member of an object. -/
theorem member {key : Text} (one : Lexes .dotted left first) (named : key.IsName) (free : key.Free place) :
    place.Lexes (left ++ '.'.toNat :: key) (first ++ [.operator (Text.ofString "."), key.lexeme]) := by
  obtain ⟨begins, others, rfl⟩ : ∃ begins others, key = begins :: others := by cases named <;> exact ⟨_, _, rfl⟩
  have noDigit := Scan.isDigit_of_notMem_signs (Scan.notMem_signs_of_isName named)
  refine one.append ((lexes_word named free).cons '.'.toNat _ rfl (by decide) fun tail _ => ?_)
    fun tail _ => .sign (by decide)
  exact Scan.token_point noDigit (others ++ tail)

/-- The items of a list. -/
theorem listed (items : List Text) (tokens : Text → List Lexeme)
    (lexes : ∀ item ∈ items, Lexes .ended item (tokens item)) :
    Lexes .ended (Rendering.listed items) (Lexeme.separated (items.map tokens)) := by
  induction items with
  | nil => exact nil
  | cons item items ih =>
      obtain ⟨here, later⟩ := List.forall_mem_cons.mp lexes
      cases items with
      | nil => exact here
      | cons next items => exact here.comma (ih later)

end Lexes

end Place

/-! Operators as they are written. -/

namespace Text

/-- Whether a text is a letter with letters, digits and underscores after it. -/
def isWord : Text → Bool
  | [] => false
  | first :: others => isLetter first && others.all Scan.isNamePart

theorem isName_of_isWord {text : Text} (word : text.isWord = true) : text.IsName := by
  cases text with
  | nil => cases word
  | cons first others =>
      obtain ⟨letter, goesOn⟩ := Bool.and_eq_true_iff.mp word
      exact .letter letter (List.all_eq_true.mp goesOn)

end Text

namespace Scan

theorem spelled_assign : Spelled (.standard {}) (.operator Term.assignSymbol) '='.toNat [] :=
  ⟨rfl, rfl, fun _ => rfl, by rintro rest (rfl | ⟨more, rfl⟩) <;> rfl⟩

theorem spelled_strict {symbol : Text} (listed : symbol ∈ strictSymbols) (other : symbol ≠ Term.indexSymbol) :
    ∃ first others, Spelled (.standard {}) (.operator symbol) first others := by
  simp only [strictSymbols, List.mem_append, List.mem_cons, List.not_mem_nil, or_false, or_assoc] at listed
  rcases listed with member | member | member | rfl | rfl
  · exact spelled_operator member
  · exact spelled_operator member
  · exact spelled_operator member
  · exact ⟨_, _, spelled_sign '^' (by decide)⟩
  · exact absurd rfl other

theorem spelled_lazy {symbol : Text} (listed : symbol ∈ lazySymbols) :
    ∃ first others, Spelled (.standard {}) (.operator symbol) first others := by
  rcases List.mem_append.mp listed with member | member
  · exact spelled_operator member
  · exact spelled_operator member

end Scan

/-- The prefix operators but for the signs and the factorial are words. -/
theorem Dialect.word_of_prefix {symbol : Text} (known : (Dialect.standard {}).isPrefixOperator symbol = true) :
    Grammar.isSign symbol ∨ symbol = Text.ofString "!" ∨
      symbol.isWord = true ∧ (Dialect.standard {}).constants.get? symbol = none := by
  have words : ∀ entry ∈ standardUnary, entry.1 = Text.ofString "-" ∨ entry.1 = Text.ofString "+" ∨
      entry.1 = Text.ofString "!" ∨ entry.1.isWord = true ∧ (standardConstants.get? entry.1).isNone = true := by
    decide +kernel
  obtain ⟨value, held⟩ := Option.isSome_iff_exists.mp known
  rcases words _ (Table.mem_of_get? held) with minus | plus | factorial | ⟨word, noConstant⟩
  · exact .inl (.inl minus)
  · exact .inl (.inr plus)
  · exact .inr (.inl factorial)
  · exact .inr (.inr ⟨word, Option.isNone_iff_eq_none.mp noConstant⟩)

namespace Term

open Place (Lexes)

variable {place : Place} {word : Text}

/-- The sign of the factorial is no longer than itself before anything but an equals sign. -/
theorem lexes_factorial : Lexes .ended (Text.ofString "!") [.operator (Text.ofString "!")] := by
  refine Place.lexes_token rfl (by decide) fun tail before => ?_
  cases before with
  | nothing => rfl
  | sign listed =>
      rename_i point rest
      have closing : point = ')'.toNat ∨ point = ','.toNat ∨ point = ';'.toNat := by
        simpa [Place.signs, Text.ofString] using listed
      rcases closing with rfl | rfl | rfl <;> rfl

theorem lexes_operatorName (operator : OperatorName word place) : place.Lexes word [word.lexeme] := by
  obtain ⟨known, unsigned, rfl⟩ := operator
  rcases Dialect.word_of_prefix known with sign | rfl | ⟨isWord, noConstant⟩
  · exact absurd sign unsigned
  · exact lexes_factorial
  · exact Place.lexes_word (Text.isName_of_isWord isWord) (.inr noConstant)

theorem lexeme_of_known (known : (Dialect.standard {}).isPrefixOperator word = true) : word.lexeme = .operator word := by
  have listed : (Dialect.standard {}).isOperatorWord word = true := by
    have unary : (Dialect.standard {}).unary.holds word = true := known
    simp [Dialect.isOperatorWord, unary]
  rw [Text.lexeme, if_pos listed]

theorem lexeme_of_proper (proper : word.Proper place) : word.lexeme = .name word := by
  rw [Text.lexeme, if_neg (by rw [proper.noOperator]; decide)]

/-- A prefix operator right before its operand. -/
theorem lexes_prefix {symbol operand : Text} {lexemes : List Lexeme}
    (known : (Dialect.standard {}).isPrefixOperator symbol = true) (other : symbol ≠ Text.ofString "!")
    (lexes : Lexes .ended operand lexemes) :
    place.Lexes (Rendering.unary symbol operand) (Lexeme.enclosed (.operator symbol :: lexemes)) := by
  rcases Dialect.word_of_prefix known with (rfl | rfl) | rfl | ⟨isWord, noConstant⟩
  · exact (lexes.cons '-'.toNat (.operator (Text.ofString "-")) rfl (by decide) fun _ _ => rfl).enclosed
  · exact (lexes.cons '+'.toNat (.operator (Text.ofString "+")) rfl (by decide) fun _ _ => rfl).enclosed
  · exact absurd rfl other
  · have word : Lexes .joined symbol [.operator symbol] := by
      have lexes : Lexes .joined symbol _ := Place.lexes_word (Text.isName_of_isWord isWord) (.inr noConstant)
      rwa [lexeme_of_known known] at lexes
    have both := word.append lexes.space fun tail _ => .sign (by decide)
    have unsigned : ∀ sign : Char, sign ∈ ['-', '+', '!'] → symbol ≠ Rendering.sign sign := by
      rintro sign listed rfl
      simp only [List.mem_cons, List.not_mem_nil, or_false] at listed
      rcases listed with rfl | rfl | rfl <;> cases isWord
    have written : Rendering.unary symbol operand =
        Rendering.enclosed '(' (symbol ++ ' '.toNat :: operand) ')' := by
      rw [Rendering.unary, if_neg (not_or.mpr ⟨unsigned '-' (by decide), unsigned '+' (by decide)⟩),
        if_neg (unsigned '!' (by decide)), List.append_assoc]
      rfl
    rw [written]
    exact both.enclosed

mutual

/-- The source text of a faithful term has the tokens of the term. -/
theorem lexes_written (heap : Heap) (term : Term) {place : Place} (faithful : term.Faithful place) :
    place.Lexes (term.written heap) term.lexemes := by
  cases term with
  | literal value => exact Place.lexes_literal heap faithful
  | name word =>
      rcases faithful with proper | operator
      · exact Place.lexes_word proper.named proper.free
      · exact lexes_operatorName operator
  | unary symbol operand =>
      rw [Faithful] at faithful
      rw [lexemes, written]
      split_ifs at faithful ⊢ with factorial
      · subst factorial
        have lexes := (lexes_written heap operand faithful).append lexes_factorial fun tail _ => .sign (by decide)
        exact lexes.enclosed
      · obtain ⟨known, operandFaithful, -⟩ := faithful
        exact lexes_prefix known factorial (lexes_written heap operand operandFaithful)
  | binary symbol left right =>
      rw [Faithful] at faithful
      rw [lexemes, written]
      split_ifs at faithful ⊢ with index
      · subst index
        obtain ⟨leftFaithful, rightFaithful⟩ := faithful
        exact (lexes_written heap left leftFaithful).append (lexes_written heap right rightFaithful).bracketed
          fun tail _ => .sign (by decide)
      · obtain ⟨listed, leftFaithful, rightFaithful⟩ := faithful
        have lexes := (lexes_written heap left leftFaithful).operator (lexes_written heap right rightFaithful)
          (Scan.spelled_strict listed index)
        have other : ¬symbol = Rendering.sign '[' := index
        rw [Rendering.binary, if_neg other]
        exact lexes.enclosed
  | shortCircuit symbol left right =>
      obtain ⟨listed, leftFaithful, rightFaithful⟩ := faithful
      have other : symbol ≠ Rendering.sign '[' := by
        rintro rfl
        revert listed
        decide
      have right : Lexes .ended _ _ := (lexes_written heap right rightFaithful).enclosed
      have lexes := (lexes_written heap left leftFaithful).operator right (Scan.spelled_lazy listed)
      rw [written, Rendering.binary, if_neg other]
      exact lexes.enclosed
  | conditional condition yes no =>
      obtain ⟨conditionFaithful, yesFaithful, noFaithful⟩ := faithful
      have last : Lexes .ended _ _ := (lexes_written heap no noFaithful).enclosed
      have arms := (lexes_written heap yes yesFaithful).enclosed.operator last ⟨_, _, Scan.spelled_sign ':' (by decide)⟩
      have lexes := (lexes_written heap condition conditionFaithful).operator arms
        ⟨_, _, Scan.spelled_sign '?' (by decide)⟩
      have whole : place.Lexes _ _ := lexes.enclosed
      simpa [written, lexemes, Rendering.sign, Text.ofString, conditionSymbol] using whole
  | assign target value =>
      obtain ⟨proper, valueFaithful⟩ := faithful
      have right : Lexes .ended _ _ := (lexes_written heap value valueFaithful).enclosed
      have lexes := (Place.lexes_word proper.named proper.free).operator right ⟨_, _, Scan.spelled_assign⟩
      exact lexes.enclosed
  | assignMember object key value =>
      obtain ⟨objectFaithful, ⟨named, free⟩, valueFaithful⟩ := faithful
      have target := (lexes_written heap object objectFaithful).member named free
      have right : Lexes .ended _ _ := (lexes_written heap value valueFaithful).enclosed
      have lexes := target.operator right ⟨_, _, Scan.spelled_assign⟩
      have whole : place.Lexes _ _ := lexes.enclosed
      simpa [written, lexemes, Rendering.sign, Text.ofString, assignSymbol] using whole
  | define function parameters body =>
      obtain ⟨proper, parametersProper, bodyFaithful⟩ := faithful
      have inputs := Lexes.listed parameters (fun parameter => [parameter.lexeme]) fun parameter member =>
        (parametersProper parameter member).elim (fun proper => Place.lexes_word proper.named proper.free)
          lexes_operatorName
      have target : Lexes .joined _ _ := (Place.lexes_word proper.named proper.free).append inputs.enclosed
        fun tail _ => .sign (by decide)
      have right : Lexes .ended _ _ := (lexes_written heap body bodyFaithful).enclosed
      have lexes := target.operator right ⟨_, _, Scan.spelled_assign⟩
      have whole : place.Lexes _ _ := lexes.enclosed
      simpa [written, lexemes, Rendering.sign, Text.ofString, assignSymbol] using whole
  | call callee arguments =>
      obtain ⟨-, calleeFaithful, argumentsFaithful⟩ := faithful
      exact (lexes_written heap callee calleeFaithful).append
        (lexes_writtenAll heap arguments argumentsFaithful).enclosed fun tail _ => .sign (by decide)
  | member object key =>
      obtain ⟨objectFaithful, named, free⟩ := faithful
      exact (lexes_written heap object objectFaithful).member named free
  | array items => exact (lexes_writtenAll heap items faithful).bracketed
  | statement body => exact faithful.elim
  | sequence first rest =>
      obtain ⟨firstFaithful, restFaithful⟩ := faithful
      have later := (lexes_written heap rest restFaithful).cons ';'.toNat .semicolon rfl (by decide) fun _ _ => rfl
      have lexes := (lexes_written heap first firstFaithful).append later fun tail _ => .sign (by decide)
      have whole : place.Lexes _ _ := lexes.enclosed
      simpa [written, lexemes, Rendering.sign] using whole

theorem lexes_writtenAll (heap : Heap) (terms : List Term) {place : Place} (faithful : FaithfulAll terms place) :
    place.Lexes (Rendering.listed (writtenAll heap terms)) (Lexeme.separated (lexemesAll terms)) := by
  match terms with
  | [] => exact .nil
  | [term] => exact lexes_written heap term faithful
  | term :: next :: rest =>
      obtain ⟨here, later⟩ := faithful
      exact (lexes_written heap term here).comma (lexes_writtenAll heap (next :: rest) later)

end

end Term

/-! Deciding which terms are faithful. -/

instance : DecidablePred Text.IsName := fun text =>
  decidable_of_iff (text.isWord = true ∨
    (text.head? = some '_'.toNat ∧ ∀ point ∈ text.tail, Scan.isNamePart point = true) ∨
    (text.head? = some '$'.toNat ∧ Text.isWord text.tail = true)) <| by
  constructor
  · rintro (word | ⟨starts, goesOn⟩ | ⟨starts, word⟩)
    · exact Text.isName_of_isWord word
    · obtain ⟨others, rfl⟩ := List.head?_eq_some_iff.mp starts
      exact .underscore goesOn
    · obtain ⟨_ | ⟨second, others⟩, rfl⟩ := List.head?_eq_some_iff.mp starts
      · cases word
      · obtain ⟨letter, goesOn⟩ := Bool.and_eq_true_iff.mp word
        exact .dollar letter (List.all_eq_true.mp goesOn)
  · rintro (⟨letter, goesOn⟩ | goesOn | ⟨letter, goesOn⟩)
    · exact .inl (Bool.and_eq_true_iff.mpr ⟨letter, List.all_eq_true.mpr goesOn⟩)
    · exact .inr (.inl ⟨rfl, goesOn⟩)
    · exact .inr (.inr ⟨rfl, Bool.and_eq_true_iff.mpr ⟨letter, List.all_eq_true.mpr goesOn⟩⟩)

instance (word : Text) (place : Place) : Decidable (word.Free place) :=
  decidable_of_iff (place = .dotted ∨ ((Dialect.standard {}).constants.get? word).isNone = true)
    (or_congr_right Option.isNone_iff_eq_none)

instance (word : Text) (place : Place) : Decidable (word.Proper place) :=
  decidable_of_iff (word.IsName ∧ (Dialect.standard {}).isOperatorWord word = false ∧ word.Free place)
    ⟨fun ⟨named, noOperator, free⟩ => ⟨named, noOperator, free⟩,
      fun ⟨named, noOperator, free⟩ => ⟨named, noOperator, free⟩⟩

instance (symbol : Text) : Decidable (Grammar.isSign symbol) := inferInstanceAs (Decidable (_ ∨ _))

instance (value : Value) (place : Place) : Decidable (value.Literal place) :=
  match value with
  | .int _ => inferInstanceAs (Decidable (_ ∧ _))
  | .float number =>
    match same : Double.kind number with
    | .finite value => decidable_of_iff (value.negative = false) (by simp [Value.Literal, same])
    | .infinite _ => isFalse (by simp [Value.Literal, same])
    | .notANumber => isFalse (by simp [Value.Literal, same])
  | .bool _ => inferInstanceAs (Decidable (_ ≠ _))
  | .text _ => inferInstanceAs (Decidable (_ ≠ _))
  | .null | .notANumber _ | .tuple _ | .list _ | .map _ | .object _ | .builtin _ | .defined _ | .host _ _ => isFalse id

namespace Term

instance (word : Text) (place : Place) : Decidable (OperatorName word place) :=
  decidable_of_iff ((Dialect.standard {}).isPrefixOperator word = true ∧ ¬Grammar.isSign word ∧ place = .ended)
    ⟨fun ⟨known, unsigned, ended⟩ => ⟨known, unsigned, ended⟩,
      fun ⟨known, unsigned, ended⟩ => ⟨known, unsigned, ended⟩⟩

mutual

/-- Whether a term is faithful can be found out, part by part. -/
def decideFaithful : (term : Term) → (place : Place) → Decidable (term.Faithful place)
  | .literal value, place => inferInstanceAs (Decidable (value.Literal place))
  | .name _, _ => inferInstanceAs (Decidable (_ ∨ _))
  | .unary _ operand, _ =>
    have := operand.decideFaithful
    inferInstanceAs (Decidable (ite _ _ _))
  | .binary _ left right, _ =>
    have := left.decideFaithful
    have := right.decideFaithful
    inferInstanceAs (Decidable (ite _ _ _))
  | .shortCircuit _ left right, _ =>
    have := left.decideFaithful
    have := right.decideFaithful
    inferInstanceAs (Decidable (_ ∧ _))
  | .conditional condition yes no, _ =>
    have := condition.decideFaithful
    have := yes.decideFaithful
    have := no.decideFaithful
    inferInstanceAs (Decidable (_ ∧ _))
  | .assign _ value, _ =>
    have := value.decideFaithful
    inferInstanceAs (Decidable (_ ∧ _))
  | .assignMember object _ value, _ =>
    have := object.decideFaithful
    have := value.decideFaithful
    inferInstanceAs (Decidable (_ ∧ _))
  | .define _ _ body, _ =>
    have := body.decideFaithful
    inferInstanceAs (Decidable (_ ∧ _))
  | .call callee arguments, _ =>
    have := callee.decideFaithful
    have := decideFaithfulAll arguments
    inferInstanceAs (Decidable (_ ∧ _))
  | .member object _, _ =>
    have := object.decideFaithful
    inferInstanceAs (Decidable (_ ∧ _))
  | .array items, _ => decideFaithfulAll items .joined
  | .statement _, _ => isFalse id
  | .sequence first rest, _ =>
    have := first.decideFaithful
    have := rest.decideFaithful
    inferInstanceAs (Decidable (_ ∧ _))

def decideFaithfulAll : (terms : List Term) → (place : Place) → Decidable (FaithfulAll terms place)
  | [], _ => isTrue trivial
  | [term], place => term.decideFaithful place
  | term :: next :: rest, _ =>
    have := term.decideFaithful
    have := decideFaithfulAll (next :: rest)
    inferInstanceAs (Decidable (_ ∧ _))

end

instance (term : Term) (place : Place) : Decidable (term.Faithful place) := term.decideFaithful place

end Term

end Formula
