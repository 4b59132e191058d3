import Formula.Proofs.Definition
import Formula.Proofs.Knowledge
import Formula.Proofs.Stepping
import Formula.Proofs.Trust

/-!
A program and its simplified form side by side. Where one holds the value of a stretch of instructions
the other may still hold the stretch; the states in which they run differ in the bodies of functions at
most, and no known name is ever bound anew.
-/

namespace Formula

/-- Programs that differ in what was folded, in either of them. -/
inductive Exchanges (facts : Facts) : Program → Program → Prop
  | nil : Exchanges facts [] []
  | same (instruction : Instruction) {one two : Program} (rest : Exchanges facts one two) :
      Exchanges facts (instruction :: one) (instruction :: two)
  | nested {inner other one two : Program} (parts : Exchanges facts inner other)
      (rest : Exchanges facts one two) :
      Exchanges facts (.nested inner :: one) (.nested other :: two)
  | folded {stretch one two : Program} {value : Value} (comes : Comes facts stretch value)
      (rest : Exchanges facts one two) : Exchanges facts (stretch ++ one) (.literal value :: two)
  | unfolded {stretch one two : Program} {value : Value} (comes : Comes facts stretch value)
      (rest : Exchanges facts one two) : Exchanges facts (.literal value :: one) (stretch ++ two)

namespace Exchanges

variable {facts : Facts}

theorem refl (program : Program) : Exchanges facts program program := by
  induction program with
  | nil => exact .nil
  | cons instruction rest ih => exact .same instruction ih

theorem of_folds {before after : Program} (folds : Folds facts before after) :
    Exchanges facts before after := by
  induction folds with
  | nil => exact .nil
  | constant comes rest ih => exact .folded comes ih
  | nested parts rest ihParts ih => exact .nested ihParts ih
  | same instruction rest ih => exact .same instruction ih

theorem symm {one two : Program} (exchanges : Exchanges facts one two) :
    Exchanges facts two one := by
  induction exchanges with
  | nil => exact .nil
  | same instruction rest ih => exact .same instruction ih
  | nested parts rest ihParts ih => exact .nested ihParts ih
  | folded comes rest ih => exact .unfolded comes ih
  | unfolded comes rest ih => exact .folded comes ih

end Exchanges

/-- Whether a value may stand in a program, and a name be bound in it, while some names are known. -/
def Instruction.Modest (values : Entries) : Instruction → Prop
  | .literal value => value.isScalar = true
  | .target word => named values word = none
  | _ => True

/-- Sound programs with plain literals that bind no known name, at any depth. -/
structure Program.Modest (values : Entries) (program : Program) : Prop where
  sound : soundAll program = true
  contents : ∀ instruction ∈ program.contents, instruction.Modest values

namespace Program.Modest

variable {values : Entries} {first second : Program}

theorem left (modest : Program.Modest values (first ++ second)) : first.Modest values where
  sound := by
    have sound := modest.sound
    rw [soundAll_append, Bool.and_eq_true] at sound
    exact sound.1
  contents instruction member := modest.contents instruction
    (by rw [contents_append]; exact List.mem_append_left _ member)

theorem right (modest : Program.Modest values (first ++ second)) : second.Modest values where
  sound := by
    have sound := modest.sound
    rw [soundAll_append, Bool.and_eq_true] at sound
    exact sound.2
  contents instruction member := modest.contents instruction
    (by rw [contents_append]; exact List.mem_append_right _ member)

theorem tail {instruction : Instruction} (modest : Program.Modest values (instruction :: first)) :
    first.Modest values := by
  rw [← List.singleton_append] at modest
  exact modest.right

theorem head {instruction : Instruction} (modest : Program.Modest values (instruction :: first)) :
    instruction.Modest values := by
  cases instruction with
  | literal value => exact modest.contents _ List.mem_cons_self
  | target name => exact modest.contents _ List.mem_cons_self
  | _ => trivial

theorem plain (modest : first.Modest values) : first.Plain :=
  fun value member => modest.contents (.literal value) member

/-- A program in a modest one is modest and comes to one operand. -/
theorem nested (modest : Program.Modest values (.nested second :: first)) :
    second.Modest values ∧ settles second = true := by
  have sound := modest.sound
  simp only [soundAll, Instruction.sound, Bool.and_eq_true] at sound
  exact ⟨⟨sound.1.2, fun instruction member => modest.contents instruction
    (List.mem_append_left _ member)⟩, sound.1.1⟩

end Program.Modest

/-- Scalars under names that mean nothing but what a context binds them to. -/
structure Knowable (options : Options) (values : Entries) : Prop where
  scalar : ∀ {name value}, named values name = some value → value.isScalar = true
  function : ∀ {name value}, named values name = some value → standardFunctions.get? name = none
  operator : ∀ {name value}, named values name = some value →
    standardUnary.get? name = none ∨ (Dialect.standard options).enables name = false
  proper : ∀ {name value}, named values name = some value → Text.isReserved name = false
  unregistered : ∀ {name value}, named values name = some value →
    Text.startsWith (Text.ofString "lambda_") name = false

/-- Neither a standard function nor one that an expression defined has a known name. -/
theorem Knowable.unnamed {options : Options} {values : Entries} (knowable : Knowable options values)
    {name : Text} {value : Value} (known : named values name = some value) {table : Table}
    (entries : ∀ entry ∈ table, entry ∈ standardFunctions ∨
      ∃ place serial, entry = (registeredName serial, .defined place)) : table.get? name = none := by
  cases held : table.get? name with
  | none => rfl
  | some function =>
      rcases entries _ (Table.mem_of_get? held) with standard | ⟨place, serial, same⟩
      · have absent := List.lookup_eq_none_iff.mp (knowable.function known)
        simpa using absent _ standard
      · have registered := knowable.unregistered known
        cases same
        have starts := List.isPrefixOf_iff_prefix.mpr
          (List.prefix_append (Text.ofString "lambda_") (Text.ofNat serial))
        rw [Text.startsWith, registeredName, starts] at registered
        cases registered

end Formula
