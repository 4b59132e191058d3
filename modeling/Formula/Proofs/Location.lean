import Formula.Proofs.Lexing
import Mathlib.Data.List.TakeWhile

/-!
Where a text fails to be an expression: at the start of one of its tokens, at its end, or at a character
that starts no token. Parsing comes to an end at every text, and the line and the column of a failure
determine its place.
-/

namespace Formula

/-- A token that starts where it says, or the end of the text. -/
inductive Token.Stands (dialect : Dialect) (source : Text) : Token → Prop
  | finish : Stands dialect source ⟨.endOfText, source.length⟩
  | here {first : CodePoint} {rest : Text} {lexeme : Lexeme} {position size : Nat}
      (follows : source.drop position = first :: rest)
      (read : Scan.token dialect first rest = .ok (lexeme, size)) : Stands dialect source ⟨lexeme, position⟩

namespace Tokens

/-- The tokens up to the end of the text or to the fault that breaks it off. -/
def delivered : Tokens → List Token
  | .finish position => [⟨.endOfText, position⟩]
  | .broken _ => []
  | .cons token rest => token :: rest.delivered

/-- The fault that breaks the text off. -/
def fault? : Tokens → Option ParseFault
  | .finish _ => none
  | .broken fault => some fault
  | .cons _ rest => rest.fault?

/-- A fault of these tokens is the one that breaks them off, or lies at one of them. -/
theorem Blames.cases {tokens : Tokens} {fault : ParseFault} (blames : tokens.Blames fault) :
    tokens.fault? = some fault ∨ ∃ token ∈ tokens.delivered, fault.At token := by
  induction blames with
  | finish here => exact .inr ⟨_, List.mem_singleton.mpr rfl, here⟩
  | broken fault => exact .inl rfl
  | here here => exact .inr ⟨_, List.mem_cons_self, here⟩
  | later _ ih =>
      rcases ih with broken | ⟨token, among, here⟩
      · exact .inl broken
      · exact .inr ⟨token, List.mem_cons_of_mem _ among, here⟩

end Tokens

/-- A place of a text, with what the text holds from there on. -/
def Cursor.In (source : Text) (cursor : Cursor) : Prop :=
  ∃ before, source = before ++ cursor.rest ∧ before.length = cursor.position

namespace Cursor

variable {source text : Text} {cursor : Cursor} {position : Nat}

theorem in_start (source : Text) : Cursor.In source ⟨0, source⟩ := ⟨[], rfl, rfl⟩

theorem In.within (inside : cursor.In source) : cursor.position ≤ source.length := by
  obtain ⟨before, rfl, length⟩ := inside
  rw [← length, List.length_append]
  exact Nat.le_add_right _ _

theorem In.drop (inside : cursor.In source) : source.drop cursor.position = cursor.rest := by
  obtain ⟨before, rfl, length⟩ := inside
  rw [← length, List.drop_left]

theorem In.advance (inside : Cursor.In source ⟨position, text⟩) (size : Nat) (within : size ≤ text.length) :
    Cursor.In source ⟨position + size, text.drop size⟩ := by
  obtain ⟨before, rfl, length⟩ := inside
  refine ⟨before ++ text.take size, ?_, ?_⟩
  · rw [List.append_assoc, List.take_append_drop]
  · rw [List.length_append, length, List.length_take, Nat.min_eq_left within]

theorem In.skipGap (part : GapPart) (inside : Cursor.In source ⟨position, text⟩) :
    (skipGap part position text).In source := by
  have onward {first : CodePoint} {rest : Text} {position : Nat}
      (inside : Cursor.In source ⟨position, first :: rest⟩) : Cursor.In source ⟨position + 1, rest⟩ :=
    inside.advance 1 (Nat.succ_le_succ (Nat.zero_le _))
  fun_induction Cursor.skipGap part position text with
  | case1 => exact inside
  | case2 _ _ _ ih => exact ih (onward inside)
  | case3 _ _ _ ih => exact ih (onward inside)
  | case4 _ _ _ _ ih => exact ih (onward inside)
  | case5 _ _ _ _ ih => exact ih (onward inside)
  | case6 _ _ _ _ ih => exact ih (onward inside)
  | case7 _ _ _ _ _ ih => exact ih (onward inside)
  | case8 => exact inside

end Cursor

namespace Tokens

variable {dialect : Dialect} {source : Text} {cursor : Cursor}

/-- The tokens from a place of a text on stand where they say. What breaks them off does so at a place of the
text whose characters are at fault. -/
theorem scan_places (inside : cursor.In source) :
    (∀ token ∈ (scan dialect cursor).delivered, token.Stands dialect source) ∧
    ∀ fault, (scan dialect cursor).fault? = some fault → fault.position ≤ source.length ∧
      fault.found = none ∧ Offends dialect fault.cause (source.drop fault.position) := by
  fun_induction scan dialect cursor with
  | case1 cursor position found =>
      have inside : cursor.skip.In source := inside.skipGap .outside
      rw [found] at inside
      obtain ⟨before, whole, rfl⟩ := inside
      rw [List.append_nil] at whole
      subst whole
      refine ⟨fun token member => List.mem_singleton.mp member ▸ .finish, fun fault broken => ?_⟩
      rw [fault?] at broken
      cases broken
  | case2 cursor position first rest found cause offset failed =>
      have inside : cursor.skip.In source := inside.skipGap .outside
      rw [found] at inside
      obtain ⟨within, offends⟩ := Scan.token_offends failed
      have there := inside.advance offset (Nat.le_succ_of_le within)
      refine ⟨nofun, fun fault broken => ?_⟩
      rw [fault?] at broken
      cases broken
      exact ⟨there.within, rfl, there.drop ▸ offends⟩
  | case3 cursor position first rest found lexeme size read ih =>
      have inside : cursor.skip.In source := inside.skipGap .outside
      rw [found] at inside
      have stands : Token.Stands dialect source ⟨lexeme, position⟩ := .here inside.drop read
      have after : Cursor.In source ⟨position + size + 1, rest.drop size⟩ :=
        inside.advance (size + 1) (Nat.succ_le_succ (Scan.token_fits read).within)
      obtain ⟨others, broken⟩ := ih after
      exact ⟨List.forall_mem_cons.mpr ⟨stands, others⟩, broken⟩

end Tokens

/-! Lines and columns. -/

namespace Text

/-- What follows the last newline of a text. -/
def lastLine (text : Text) : Text := (text.reverse.takeWhile (· ≠ '\n'.toNat)).reverse

variable {text : Text}

theorem newline_not_mem_lastLine (text : Text) : '\n'.toNat ∉ text.lastLine := by
  intro member
  have differs := List.mem_takeWhile_imp (List.mem_reverse.mp member)
  exact absurd rfl (of_decide_eq_true differs)

/-- Before the last line there is nothing, or a newline. -/
theorem eq_append_lastLine (text : Text) :
    ∃ before, text = before ++ text.lastLine ∧ (before = [] ∨ ∃ earlier, before = earlier ++ ['\n'.toNat]) := by
  refine ⟨(text.reverse.dropWhile (· ≠ '\n'.toNat)).reverse, ?_, ?_⟩
  · rw [lastLine, ← List.reverse_append, List.takeWhile_append_dropWhile, List.reverse_reverse]
  · cases came : text.reverse.dropWhile (· ≠ '\n'.toNat) with
    | nil => exact .inl rfl
    | cons point rest =>
        have stops := List.head?_dropWhile_not (· ≠ '\n'.toNat) text.reverse
        rw [came] at stops
        have newline : point = '\n'.toNat := by simpa using stops
        exact .inr ⟨rest.reverse, by rw [List.reverse_cons, newline]⟩

theorem lastLine_append {more : Text} (free : '\n'.toNat ∉ more) :
    (text ++ more).lastLine = text.lastLine ++ more := by
  have passes : ∀ point ∈ more.reverse, decide (point ≠ '\n'.toNat) = true := fun point member =>
    decide_eq_true fun same => free (same ▸ List.mem_reverse.mp member)
  rw [lastLine, List.reverse_append, List.takeWhile_append_of_pos passes, List.reverse_append,
    List.reverse_reverse]
  rfl

end Text

section

variable {source : Text} {position other : Nat}

theorem coordinates_eq (source : Text) (position : Nat) :
    coordinates source position =
      ((source.take position).count '\n'.toNat + 1, (Text.lastLine (source.take position)).length + 1) := by
  rw [Text.lastLine, List.length_reverse]
  rfl

/-- No newline stands at the places between two ends of a text without one. -/
theorem getElem?_ne_newline {before line after : Text} (free : '\n'.toNat ∉ line) {place : Nat}
    (lower : before.length ≤ place) (upper : place < before.length + line.length) :
    (before ++ line ++ after)[place]? ≠ some '\n'.toNat := by
  intro found
  rw [List.append_assoc, List.getElem?_append_right lower, List.getElem?_append_left (by omega)] at found
  exact free (List.mem_of_getElem? found)

/-- The column is the distance from the last newline before a place, or from just before the text. -/
theorem column_eq_distance (within : position ≤ source.length) :
    (∃ last < position, source[last]? = some '\n'.toNat ∧
      (∀ place, last < place → place < position → source[place]? ≠ some '\n'.toNat) ∧
      (coordinates source position).2 = position - last) ∨
    ((∀ place < position, source[place]? ≠ some '\n'.toNat) ∧
      (coordinates source position).2 = position + 1) := by
  obtain ⟨before, split, first⟩ := Text.eq_append_lastLine (source.take position)
  have free := Text.newline_not_mem_lastLine (source.take position)
  have whole : source = before ++ Text.lastLine (source.take position) ++ source.drop position := by
    rw [← split, List.take_append_drop]
  have length : before.length + (Text.lastLine (source.take position)).length = position := by
    rw [← List.length_append, ← split, List.length_take, Nat.min_eq_left within]
  have between : ∀ place, before.length ≤ place → place < position → source[place]? ≠ some '\n'.toNat := by
    intro place lower upper
    rw [whole]
    exact getElem?_ne_newline free lower (by omega)
  rw [coordinates_eq]
  rcases first with rfl | ⟨earlier, rfl⟩
  · exact .inr ⟨fun place upper => between place (Nat.zero_le _) upper, by simpa using length⟩
  · rw [List.length_append, List.length_singleton] at length between
    refine .inl ⟨earlier.length, by omega, ?_, fun place lower => between place lower, by simp only; omega⟩
    rw [whole, List.append_assoc, List.append_assoc, List.getElem?_append_right (Nat.le_refl _), Nat.sub_self]
    rfl

/-- Two places of a text with the same line and column are one. -/
theorem eq_of_coordinates (within : position ≤ source.length) (withinOther : other ≤ source.length)
    (same : coordinates source position = coordinates source other) : position = other := by
  -- Later on the same line the column is larger.
  have apart {first second : Nat} (before : first < second) (within : second ≤ source.length) :
      coordinates source first ≠ coordinates source second := by
    intro same
    have split : source.take second = source.take first ++ (source.take second).drop first := by
      have earlier : (source.take second).take first = source.take first := by
        rw [List.take_take, Nat.min_eq_left (Nat.le_of_lt before)]
      rw [← earlier, List.take_append_drop]
    rw [coordinates_eq, coordinates_eq, Prod.mk.injEq, split, List.count_append] at same
    have free : '\n'.toNat ∉ (source.take second).drop first := List.count_eq_zero.mp (by omega)
    have columns := same.2
    rw [Text.lastLine_append free, List.length_append, List.length_drop, List.length_take,
      Nat.min_eq_left within] at columns
    omega
  rcases Nat.lt_trichotomy position other with before | equal | after
  · exact absurd same (apart before withinOther)
  · exact equal
  · exact absurd same.symm (apart after within)

end

/-- The place of a failure to parse: a token, the end of the text, or the characters at fault. -/
structure ParseFailure.Located (dialect : Dialect) (source : Text) (failure : ParseFailure) : Prop where
  within : failure.position ≤ source.length
  syntactic : failure.isLexical = false → ∃ token ∈ (Tokens.ofText dialect source).delivered,
    token.Stands dialect source ∧ failure.position = token.position ∧ failure.found = some token.lexeme
  lexical : failure.isLexical = true →
    (Tokens.ofText dialect source).fault? = some failure.toParseFault ∧ failure.found = none ∧
      Offends dialect failure.cause (source.drop failure.position)
  line : failure.line = (source.take failure.position).count '\n'.toNat + 1
  column :
    (∃ last < failure.position, source[last]? = some '\n'.toNat ∧
      (∀ place, last < place → place < failure.position → source[place]? ≠ some '\n'.toNat) ∧
      failure.column = failure.position - last) ∨
    ((∀ place < failure.position, source[place]? ≠ some '\n'.toNat) ∧ failure.column = failure.position + 1)
  determined : ∀ place ≤ source.length,
    coordinates source place = (failure.line, failure.column) → place = failure.position

theorem Offends.isLexical {dialect : Dialect} {fault : ParseFault} {rest : Text}
    (offends : Offends dialect fault.cause rest) : fault.isLexical = true := by
  obtain ⟨cause, position, found⟩ := fault
  cases offends with
  | character => rfl
  | escape bad => cases bad <;> rfl

theorem Token.Stands.within {dialect : Dialect} {source : Text} {token : Token}
    (stands : token.Stands dialect source) : token.position ≤ source.length := by
  cases stands with
  | finish => exact Nat.le_refl _
  | here follows read =>
      have filled := congrArg List.length follows
      rw [List.length_drop, List.length_cons] at filled
      simp only
      omega

/-- Every fault of the tokens of a text is located there. -/
theorem ParseFault.located {dialect : Dialect} {source : Text} {fault : ParseFault}
    (blames : (Tokens.ofText dialect source).Blames fault) : (fault.locate source).Located dialect source := by
  obtain ⟨stands, broken⟩ := @Tokens.scan_places dialect source _ (Cursor.in_start source)
  have locate (within : fault.position ≤ source.length)
      (syntactic : fault.isLexical = false → ∃ token ∈ (Tokens.ofText dialect source).delivered,
        token.Stands dialect source ∧ fault.position = token.position ∧ fault.found = some token.lexeme)
      (lexical : fault.isLexical = true → (Tokens.ofText dialect source).fault? = some fault ∧
        fault.found = none ∧ Offends dialect fault.cause (source.drop fault.position)) :
      (fault.locate source).Located dialect source :=
    { within, syntactic, lexical
      line := rfl
      column := column_eq_distance within
      determined := fun place withinOther same =>
        eq_of_coordinates withinOther within (same.trans (Prod.eta _)) }
  rcases blames.cases with breaks | ⟨token, among, here⟩
  · obtain ⟨within, bare, offends⟩ := broken fault breaks
    exact locate within (fun syntactic => by rw [offends.isLexical] at syntactic; cases syntactic)
      fun _ => ⟨breaks, bare, offends⟩
  · have place := stands token among
    exact locate (here.position ▸ place.within) (fun _ => ⟨token, among, place, here.position, here.found⟩)
      fun lexical => by rw [here.syntactic] at lexical; cases lexical

/-- No program of a term is empty. -/
theorem Term.code_ne_nil (term : Term) : term.code ≠ [] := by
  cases term <;> simp [Term.code]

/-- Parsing comes to an end at every text: the recursion is never too deep for its bound, and its result is
a term or a failure that is located. -/
theorem parse_settles (dialect : Dialect) (source : Text) :
    (∃ term, (Grammar.readAll dialect (Tokens.ofText dialect source)).run = some (.ok term) ∧
      parse dialect source = .ok term ∧ term.code ≠ []) ∨
    ∃ fault, (Grammar.readAll dialect (Tokens.ofText dialect source)).run = some (.error fault) ∧
      parse dialect source = .error (fault.locate source) ∧ (fault.locate source).Located dialect source := by
  rcases parse_ends closed_trivial (Tokens.all_trivial _) with ⟨term, came, parsed, -⟩ | ⟨fault, came, failed, blames⟩
  · exact .inl ⟨term, came, parsed, term.code_ne_nil⟩
  · exact .inr ⟨fault, came, failed, ParseFault.located blames⟩

end Formula
