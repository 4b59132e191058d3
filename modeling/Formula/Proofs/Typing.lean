import Mathlib.Data.List.Forall2
import Formula.Tensor
import Formula.Term

/-!
Expressions of integers and truth values: which are well typed, and what they denote in exact
arithmetic, where every operand is worked out, whether it is selected or not.
-/

namespace Formula

inductive Kind where
  | int
  | bool
  deriving DecidableEq, Repr

/-- An integer or a truth value. -/
inductive Datum where
  | int (number : Int)
  | bool (truth : Bool)
  deriving DecidableEq, Repr

namespace Datum

def kind : Datum → Kind
  | .int _ => .int
  | .bool _ => .bool

/-- The datum as a value of the language. -/
def value : Datum → Value
  | .int number => .int number
  | .bool truth => .bool truth

/-- The datum as a constant or an argument of a graph. -/
def scalar : Datum → Scalar
  | .int number => .int number
  | .bool truth => .bool truth

/-- The datum as an element of an array, an integer modulo the range of 32 bits. -/
def element : Datum → Element
  | .int number => .int (Int32.ofInt number)
  | .bool truth => .bool truth

/-- Whether an integer fits in 32 signed bits. -/
def Fits : Datum → Prop
  | .int number => -2147483648 ≤ number ∧ number < 2147483648
  | .bool _ => True

instance (datum : Datum) : Decidable datum.Fits := by
  cases datum <;> unfold Fits <;> infer_instance

def integerFunctions : List (Text × (Int → Int)) :=
  [(Text.ofString "-", fun x => -x), (Text.ofString "+", id),
   (Text.ofString "abs", fun x => x.natAbs)]

def arithmetic : List (Text × (Int → Int → Int)) :=
  [(Text.ofString "+", (· + ·)), (Text.ofString "-", (· - ·)), (Text.ofString "*", (· * ·))]

def comparisons : List (Text × (Int → Int → Bool)) :=
  [(Text.ofString "<", fun x y => x < y), (Text.ofString "<=", fun x y => x ≤ y),
   (Text.ofString ">", fun x y => y < x), (Text.ofString ">=", fun x y => y ≤ x),
   (Text.ofString "==", (· == ·)), (Text.ofString "!=", (· != ·))]

def equalities : List (Text × (Bool → Bool → Bool)) :=
  [(Text.ofString "==", (· == ·)), (Text.ofString "!=", (· != ·))]

def connectives : List (Text × (Bool → Bool → Bool)) :=
  [(Text.ofString "and", (· && ·)), (Text.ofString "or", (· || ·))]

def extrema : List (Text × (Int → Int → Int)) :=
  [(Text.ofString "min", min), (Text.ofString "max", max)]

/-- The result of an operator with one operand, if the operand is of the right kind. -/
def unary? (symbol : Text) : Datum → Option Datum
  | .int number => (integerFunctions.lookup symbol).map fun function => .int (function number)
  | .bool truth => if symbol = Text.ofString "not" then some (.bool !truth) else none

/-- The result of an operator with two operands, if they are of the right kinds. -/
def binary? (symbol : Text) : Datum → Datum → Option Datum
  | .int left, .int right =>
    ((arithmetic.lookup symbol).map fun function => Datum.int (function left right)).or
      ((comparisons.lookup symbol).map fun function => .bool (function left right))
  | .bool left, .bool right =>
    (equalities.lookup symbol).map fun function => .bool (function left right)
  | _, _ => none

/-- The datum as a number: a truth value counts as one or zero. -/
def number : Datum → Int
  | .int number => number
  | .bool truth => truth.toNat

/-- Whether the datum counts as met. -/
def met : Datum → Bool
  | .int number => number != 0
  | .bool truth => truth

/-- The operators that work out both operands, with what they come to on data of any kinds. A truth value
counts as a number, but is equal to none. -/
def strict : List (Text × (Datum → Datum → Datum)) :=
  [(Text.ofString "+", fun one two => .int (one.number + two.number)),
   (Text.ofString "-", fun one two => .int (one.number - two.number)),
   (Text.ofString "*", fun one two => .int (one.number * two.number)),
   (Text.ofString "==", fun one two => .bool (one == two)),
   (Text.ofString "!=", fun one two => .bool (one != two)),
   (Text.ofString "<", fun one two => .bool (one.number < two.number)),
   (Text.ofString "<=", fun one two => .bool (one.number ≤ two.number)),
   (Text.ofString ">", fun one two => .bool (two.number < one.number)),
   (Text.ofString ">=", fun one two => .bool (two.number ≤ one.number))]

theorem int_beq (left right : Int) : (Datum.int left == Datum.int right) = (left == right) := by
  rw [Bool.eq_iff_iff, beq_iff_eq, beq_iff_eq, Datum.int.injEq]

theorem bool_beq (left right : Bool) : (Datum.bool left == Datum.bool right) = (left == right) := by
  rw [Bool.eq_iff_iff, beq_iff_eq, beq_iff_eq, Datum.bool.injEq]

end Datum

open Datum

/-- The well-typed expressions over names of given kinds. -/
inductive Typed (kinds : Text → Option Kind) : Term → Kind → Prop
  | literal (datum : Datum) : Typed kinds (.literal datum.value) datum.kind
  | argument {name : Text} {kind : Kind} (known : kinds name = some kind) :
      Typed kinds (.name name) kind
  | integerFunction {symbol : Text} {operand : Term}
      (listed : symbol ∈ integerFunctions.map (·.1)) (typed : Typed kinds operand .int) :
      Typed kinds (.unary symbol operand) .int
  | negation {operand : Term} (typed : Typed kinds operand .bool) :
      Typed kinds (.unary (Text.ofString "not") operand) .bool
  | arithmetic {symbol : Text} {left right : Term} (listed : symbol ∈ arithmetic.map (·.1))
      (typedLeft : Typed kinds left .int) (typedRight : Typed kinds right .int) :
      Typed kinds (.binary symbol left right) .int
  | comparison {symbol : Text} {left right : Term} (listed : symbol ∈ comparisons.map (·.1))
      (typedLeft : Typed kinds left .int) (typedRight : Typed kinds right .int) :
      Typed kinds (.binary symbol left right) .bool
  | equality {symbol : Text} {left right : Term} (listed : symbol ∈ equalities.map (·.1))
      (typedLeft : Typed kinds left .bool) (typedRight : Typed kinds right .bool) :
      Typed kinds (.binary symbol left right) .bool
  | connective {symbol : Text} {left right : Term} (listed : symbol ∈ connectives.map (·.1))
      (typedLeft : Typed kinds left .bool) (typedRight : Typed kinds right .bool) :
      Typed kinds (.shortCircuit symbol left right) .bool
  | conditional {condition yes no : Term} {kind : Kind} (typed : Typed kinds condition .bool)
      (typedYes : Typed kinds yes kind) (typedNo : Typed kinds no kind) :
      Typed kinds (.conditional condition yes no) kind
  | extremum {function : Text} {arguments : List Term} (listed : function ∈ extrema.map (·.1))
      (several : 2 ≤ arguments.length) (typed : ∀ argument ∈ arguments, Typed kinds argument .int) :
      Typed kinds (.call (.name function) arguments) .int

/-- What an expression denotes where names stand for data, if every part of it denotes something within
bounds. -/
inductive Denotes (environment : Text → Option Datum) (within : Datum → Prop) : Term → Datum → Prop
  | literal {datum : Datum} (inside : within datum) :
      Denotes environment within (.literal datum.value) datum
  | argument {name : Text} {datum : Datum} (known : environment name = some datum)
      (inside : within datum) : Denotes environment within (.name name) datum
  | unary {symbol : Text} {operand : Term} {datum result : Datum}
      (denotes : Denotes environment within operand datum) (known : datum.unary? symbol = some result)
      (inside : within result) : Denotes environment within (.unary symbol operand) result
  | binary {symbol : Text} {left right : Term} {one two result : Datum}
      (denotesLeft : Denotes environment within left one)
      (denotesRight : Denotes environment within right two)
      (known : one.binary? symbol two = some result) (inside : within result) :
      Denotes environment within (.binary symbol left right) result
  | connective {symbol : Text} {function : Bool → Bool → Bool} {left right : Term} {one two : Bool}
      (listed : (symbol, function) ∈ connectives)
      (denotesLeft : Denotes environment within left (.bool one))
      (denotesRight : Denotes environment within right (.bool two))
      (inside : within (.bool (function one two))) :
      Denotes environment within (.shortCircuit symbol left right) (.bool (function one two))
  | conditional {condition yes no : Term} {met : Bool} {one two : Datum}
      (denotes : Denotes environment within condition (.bool met))
      (denotesYes : Denotes environment within yes one)
      (denotesNo : Denotes environment within no two) (alike : one.kind = two.kind)
      (inside : within (if met then one else two)) :
      Denotes environment within (.conditional condition yes no) (if met then one else two)
  | extremum {name : Text} {function : Int → Int → Int} {arguments : List Term}
      {first second : Int} {others : List Int} (listed : (name, function) ∈ extrema)
      (count : arguments.length = (first :: second :: others).length)
      (denotes : ∀ argument number, (argument, number) ∈ arguments.zip (first :: second :: others) →
        Denotes environment within argument (.int number))
      (inside : within (.int ((second :: others).foldl function first))) :
      Denotes environment within (.call (.name name) arguments)
        (.int ((second :: others).foldl function first))

namespace Term

/-- The parts of a term right below it. -/
def children : Term → List Term
  | .literal _ | .name _ => []
  | .unary _ operand => [operand]
  | .binary _ left right | .shortCircuit _ left right => [left, right]
  | .conditional condition yes no => [condition, yes, no]
  | .assign _ value => [value]
  | .assignMember object _ value => [object, value]
  | .define _ _ body => [body]
  | .call callee arguments => callee :: arguments
  | .member object _ => [object]
  | .array items => items
  | .statement body => [body]
  | .sequence first rest => [first, rest]

/-- The subexpressions of a term, itself included. -/
inductive Part (term : Term) : Term → Prop
  | whole : Part term term
  | child {part child : Term} (inside : Part term part) (member : child ∈ part.children) :
      Part term child

theorem Part.of_child {term child part : Term} (member : child ∈ term.children)
    (inside : child.Part part) : term.Part part := by
  induction inside with
  | whole => exact .child .whole member
  | child _ further ih => exact .child ih further

/-- All subexpressions are among some terms that hold the parts of each other. -/
theorem Part.among {term part : Term} {terms : List Term} (inside : term.Part part)
    (first : term ∈ terms) (closed : ∀ part ∈ terms, ∀ child ∈ part.children, child ∈ terms) :
    part ∈ terms := by
  induction inside with
  | whole => exact first
  | child _ member ih => exact closed _ ih _ member

end Term

variable {environment : Text → Option Datum} {within : Datum → Prop} {term : Term} {kind : Kind}

theorem mem_of_lookup {α : Type} {table : List (Text × α)} {symbol : Text} {entry : α}
    (held : table.lookup symbol = some entry) : (symbol, entry) ∈ table := by
  obtain ⟨before, after, rfl, -⟩ := List.lookup_eq_some_iff.mp held
  simp

/-- The operators on operands of the right kinds are among those on operands of any kinds. -/
theorem Datum.strict_of_binary {symbol : Text} {one two result : Datum}
    (known : one.binary? symbol two = some result) :
    ∃ function, (symbol, function) ∈ strict ∧ function one two = result := by
  cases one with
  | int left =>
      cases two with
      | bool right => cases known
      | int right =>
          rcases Option.or_eq_some_iff.mp known with known | ⟨-, known⟩
          · obtain ⟨function, held, rfl⟩ := Option.map_eq_some_iff.mp known
            have listed := mem_of_lookup held
            simp only [arithmetic, List.mem_cons, Prod.mk.injEq, List.not_mem_nil, or_false] at listed
            rcases listed with ⟨rfl, rfl⟩ | ⟨rfl, rfl⟩ | ⟨rfl, rfl⟩ <;> exact ⟨_, mem_of_lookup rfl, rfl⟩
          · obtain ⟨function, held, rfl⟩ := Option.map_eq_some_iff.mp known
            have listed := mem_of_lookup held
            simp only [comparisons, List.mem_cons, Prod.mk.injEq, List.not_mem_nil, or_false] at listed
            rcases listed with ⟨rfl, rfl⟩ | ⟨rfl, rfl⟩ | ⟨rfl, rfl⟩ | ⟨rfl, rfl⟩ | ⟨rfl, rfl⟩ | ⟨rfl, rfl⟩
            · exact ⟨_, mem_of_lookup rfl, rfl⟩
            · exact ⟨_, mem_of_lookup rfl, rfl⟩
            · exact ⟨_, mem_of_lookup rfl, rfl⟩
            · exact ⟨_, mem_of_lookup rfl, rfl⟩
            · exact ⟨_, mem_of_lookup rfl, congrArg bool (int_beq left right)⟩
            · exact ⟨_, mem_of_lookup rfl, congrArg (bool <| not ·) (int_beq left right)⟩
  | bool left =>
      cases two with
      | int right => cases known
      | bool right =>
          obtain ⟨function, held, rfl⟩ := Option.map_eq_some_iff.mp known
          have listed := mem_of_lookup held
          simp only [equalities, List.mem_cons, Prod.mk.injEq, List.not_mem_nil, or_false] at listed
          rcases listed with ⟨rfl, rfl⟩ | ⟨rfl, rfl⟩
          · exact ⟨_, mem_of_lookup rfl, congrArg bool (bool_beq left right)⟩
          · exact ⟨_, mem_of_lookup rfl, congrArg (bool <| not ·) (bool_beq left right)⟩

/-- The integers that some expressions denote. -/
theorem numbers_of_each {arguments : List Term}
    (each : ∀ argument ∈ arguments, ∃ number : Int,
      Denotes environment within argument (.int number)) :
    ∃ numbers : List Int, List.Forall₂
      (fun argument number => Denotes environment within argument (.int number)) arguments numbers := by
  induction arguments with
  | nil => exact ⟨[], .nil⟩
  | cons argument arguments ih =>
      obtain ⟨number, denotes⟩ := each argument List.mem_cons_self
      obtain ⟨numbers, others⟩ := ih fun other member => each other (List.mem_cons_of_mem _ member)
      exact ⟨number :: numbers, .cons denotes others⟩

/-- A well-typed expression denotes a datum of its kind. -/
theorem Typed.denotes (typed : Typed (fun name => (environment name).map Datum.kind) term kind) :
    ∃ datum, datum.kind = kind ∧ Denotes environment (fun _ => True) term datum := by
  have number {datum : Datum} (int : datum.kind = .int) : ∃ number, datum = .int number := by
    cases datum with
    | int number => exact ⟨number, rfl⟩
    | bool truth => cases int
  have truth {datum : Datum} (bool : datum.kind = .bool) : ∃ truth, datum = .bool truth := by
    cases datum with
    | int number => cases bool
    | bool truth => exact ⟨truth, rfl⟩
  induction typed with
  | literal datum => exact ⟨datum, rfl, .literal trivial⟩
  | argument known =>
      obtain ⟨datum, held, rfl⟩ := Option.map_eq_some_iff.mp known
      exact ⟨datum, rfl, .argument held trivial⟩
  | integerFunction listed _ ih =>
      obtain ⟨_, int, denotes⟩ := ih
      obtain ⟨_, rfl⟩ := number int
      simp only [integerFunctions, List.map_cons, List.map_nil, List.mem_cons, List.not_mem_nil,
        or_false] at listed
      rcases listed with rfl | rfl | rfl <;> exact ⟨_, rfl, .unary denotes rfl trivial⟩
  | negation _ ih =>
      obtain ⟨_, bool, denotes⟩ := ih
      obtain ⟨_, rfl⟩ := truth bool
      exact ⟨_, rfl, .unary denotes rfl trivial⟩
  | arithmetic listed _ _ ihLeft ihRight =>
      obtain ⟨_, int, denotesLeft⟩ := ihLeft
      obtain ⟨_, rfl⟩ := number int
      obtain ⟨_, int, denotesRight⟩ := ihRight
      obtain ⟨_, rfl⟩ := number int
      simp only [Datum.arithmetic, List.map_cons, List.map_nil, List.mem_cons, List.not_mem_nil,
        or_false] at listed
      rcases listed with rfl | rfl | rfl <;>
        exact ⟨_, rfl, .binary denotesLeft denotesRight rfl trivial⟩
  | comparison listed _ _ ihLeft ihRight =>
      obtain ⟨_, int, denotesLeft⟩ := ihLeft
      obtain ⟨_, rfl⟩ := number int
      obtain ⟨_, int, denotesRight⟩ := ihRight
      obtain ⟨_, rfl⟩ := number int
      simp only [comparisons, List.map_cons, List.map_nil, List.mem_cons, List.not_mem_nil,
        or_false] at listed
      rcases listed with rfl | rfl | rfl | rfl | rfl | rfl <;>
        exact ⟨_, rfl, .binary denotesLeft denotesRight rfl trivial⟩
  | equality listed _ _ ihLeft ihRight =>
      obtain ⟨_, bool, denotesLeft⟩ := ihLeft
      obtain ⟨_, rfl⟩ := truth bool
      obtain ⟨_, bool, denotesRight⟩ := ihRight
      obtain ⟨_, rfl⟩ := truth bool
      simp only [equalities, List.map_cons, List.map_nil, List.mem_cons, List.not_mem_nil,
        or_false] at listed
      rcases listed with rfl | rfl <;> exact ⟨_, rfl, .binary denotesLeft denotesRight rfl trivial⟩
  | connective listed _ _ ihLeft ihRight =>
      obtain ⟨_, bool, denotesLeft⟩ := ihLeft
      obtain ⟨_, rfl⟩ := truth bool
      obtain ⟨_, bool, denotesRight⟩ := ihRight
      obtain ⟨_, rfl⟩ := truth bool
      obtain ⟨⟨_, function⟩, member, rfl⟩ := List.mem_map.mp listed
      exact ⟨_, rfl, .connective member denotesLeft denotesRight trivial⟩
  | conditional _ _ _ ih ihYes ihNo =>
      obtain ⟨_, bool, denotes⟩ := ih
      obtain ⟨met, rfl⟩ := truth bool
      obtain ⟨one, same, denotesYes⟩ := ihYes
      obtain ⟨two, sameNo, denotesNo⟩ := ihNo
      refine ⟨if met then one else two, ?_, .conditional denotes denotesYes denotesNo
        (same.trans sameNo.symm) trivial⟩
      cases met <;> assumption
  | @extremum name arguments listed several _ ih =>
      obtain ⟨⟨_, function⟩, member, rfl⟩ := List.mem_map.mp listed
      obtain ⟨numbers, each⟩ := numbers_of_each fun argument inside => by
        obtain ⟨_, int, denotes⟩ := ih argument inside
        obtain ⟨value, rfl⟩ := number int
        exact ⟨value, denotes⟩
      obtain ⟨count, denotes⟩ := List.forall₂_iff_zip.mp each
      rcases numbers with _ | ⟨first, _ | ⟨second, others⟩⟩
      · simp at count; simp [count] at several
      · simp [count] at several
      · exact ⟨_, rfl, .extremum member count (fun _ _ pair => denotes pair) trivial⟩

/-- An expression denotes something within the bounds if all its parts do. -/
theorem Denotes.bounded {datum : Datum} (denotes : Denotes environment (fun _ => True) term datum)
    (bounds : ∀ part, term.Part part → ∀ datum, Denotes environment (fun _ => True) part datum →
      within datum) : Denotes environment within term datum := by
  have inner {term child : Term} (member : child ∈ term.children)
      (bounds : ∀ part, term.Part part → ∀ datum, Denotes environment (fun _ => True) part datum →
        within datum) (part : Term) (inside : child.Part part) (datum : Datum)
      (denotes : Denotes environment (fun _ => True) part datum) : within datum :=
    bounds part (.of_child member inside) datum denotes
  induction denotes with
  | literal inside => exact .literal (bounds _ .whole _ (.literal inside))
  | argument known inside => exact .argument known (bounds _ .whole _ (.argument known inside))
  | unary denotes known inside ih =>
      exact .unary (ih (inner List.mem_cons_self bounds)) known
        (bounds _ .whole _ (.unary denotes known inside))
  | binary denotesLeft denotesRight known inside ihLeft ihRight =>
      exact .binary (ihLeft (inner (by simp [Term.children]) bounds))
        (ihRight (inner (by simp [Term.children]) bounds)) known
        (bounds _ .whole _ (.binary denotesLeft denotesRight known inside))
  | connective listed denotesLeft denotesRight inside ihLeft ihRight =>
      exact .connective listed (ihLeft (inner (by simp [Term.children]) bounds))
        (ihRight (inner (by simp [Term.children]) bounds))
        (bounds _ .whole _ (.connective listed denotesLeft denotesRight inside))
  | conditional denotes denotesYes denotesNo alike inside ih ihYes ihNo =>
      exact .conditional (ih (inner (by simp [Term.children]) bounds))
        (ihYes (inner (by simp [Term.children]) bounds))
        (ihNo (inner (by simp [Term.children]) bounds)) alike
        (bounds _ .whole _ (.conditional denotes denotesYes denotesNo alike inside))
  | @extremum name _ _ _ _ _ listed count denotes inside ih =>
      refine .extremum listed count (fun argument number member => ih argument number member ?_)
        (bounds _ .whole _ (.extremum listed count denotes inside))
      have below : argument ∈ (Term.call (.name name) _).children :=
        List.mem_cons_of_mem _ (List.of_mem_zip member).1
      exact inner below bounds

end Formula
