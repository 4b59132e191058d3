import Formula.Program.Substitution
import Formula.Proofs.Discipline
import Formula.Proofs.Folding

/-!
Simplification and substitution keep the discipline of the stack.
-/

namespace Formula

/-- What a program that ends in an instruction makes of a stack, when it comes to an end. -/
theorem scan_last {program : Program} {instruction : Instruction} {stack result : List Shape}
    (found : scan (program ++ [instruction]) stack = some result) :
    ∃ between lower, scan program stack = some between ∧
      take instruction.demands between = some lower ∧ result = instruction.yields ++ lower := by
  rw [scan_append, Option.bind_eq_some_iff] at found
  obtain ⟨between, first, last⟩ := found
  simp only [scan] at last
  cases taken : take instruction.demands between with
  | none => simp [taken] at last
  | some lower =>
      simp only [taken, Option.some.injEq] at last
      exact ⟨between, lower, first, taken, last.symm⟩

namespace Comes

variable {facts : Facts}

/-- Instructions that come to a known value leave one value where nothing was. -/
theorem scanned {stretch : Program} {value : Value} (constant : Comes facts stretch value)
    {stack result : List Shape} (found : scan stretch stack = some result) :
    result = .value :: stack := by
  induction constant generalizing stack result with
  | literal value =>
      cases found
      rfl
  | name known =>
      cases found
      rfl
  | unary constant known ih =>
      obtain ⟨between, lower, first, taken, rfl⟩ := scan_last found
      cases ih first
      cases taken
      rfl
  | member constant known ih =>
      obtain ⟨between, lower, first, taken, rfl⟩ := scan_last found
      cases ih first
      cases taken
      rfl
  | @binary symbol _ _ _ _ _ constantLeft constantRight known ihLeft ihRight =>
      obtain ⟨between, lower, first, taken, rfl⟩ := scan_last found
      rw [scan_append, Option.bind_eq_some_iff] at first
      obtain ⟨under, left, right⟩ := first
      cases ihLeft left
      cases ihRight right
      simp only [Instruction.demands] at taken
      split at taken
      · cases taken
      · cases taken
        rfl
  | choose constantFirst constantSecond constantThird known chosen ihFirst ihSecond ihThird =>
      obtain ⟨between, lower, first, taken, rfl⟩ := scan_last found
      rw [scan_append, Option.bind_eq_some_iff] at first
      obtain ⟨under, others, third⟩ := first
      rw [scan_append, Option.bind_eq_some_iff] at others
      obtain ⟨base, first, second⟩ := others
      cases ihFirst first
      cases ihSecond second
      cases ihThird third
      cases taken
      rfl
  | @ternary symbol _ _ _ _ _ _ _ other constantFirst constantSecond constantThird known ihFirst
      ihSecond ihThird =>
      obtain ⟨between, lower, first, taken, rfl⟩ := scan_last found
      rw [scan_append, Option.bind_eq_some_iff] at first
      obtain ⟨under, others, third⟩ := first
      rw [scan_append, Option.bind_eq_some_iff] at others
      obtain ⟨base, first, second⟩ := others
      cases ihFirst first
      cases ihSecond second
      cases ihThird third
      simp only [Instruction.demands] at taken
      split at taken
      · cases taken
      · cases taken
        rfl

/-- Two stretches leave their values one above the other. -/
theorem scanned_pair {first second : Program} {left right : Value} {stack result : List Shape}
    (constantLeft : Comes facts first left) (constantRight : Comes facts second right)
    (found : scan (first ++ second) stack = some result) :
    (∃ one, scan first stack = some one) ∧ (∃ two, scan second (.value :: stack) = some two) ∧
      result = .value :: .value :: stack := by
  rw [scan_append, Option.bind_eq_some_iff] at found
  obtain ⟨under, one, two⟩ := found
  cases constantLeft.scanned one
  exact ⟨⟨_, one⟩, ⟨_, two⟩, constantRight.scanned two⟩

end Comes

namespace Folds

variable {facts : Facts} {before after : Program}

/-- Folding changes nothing in what a program leaves. -/
theorem scanned (folds : Folds facts before after) {stack result : List Shape}
    (found : scan before stack = some result) : scan after stack = some result := by
  induction folds generalizing stack with
  | nil => exact found
  | constant comes rest ih =>
      rw [scan_append, Option.bind_eq_some_iff] at found
      obtain ⟨between, first, last⟩ := found
      cases comes.scanned first
      exact ih last
  | nested parts rest ihParts ih =>
      exact ih found
  | same instruction rest ih =>
      simp only [scan] at found ⊢
      cases taken : take instruction.demands stack with
      | none => simp [taken] at found
      | some lower =>
          rw [taken] at found
          exact ih found

theorem sound (folds : Folds facts before after) (sound : soundAll before = true) :
    soundAll after = true := by
  induction folds with
  | nil => rfl
  | constant comes rest ih =>
      rw [soundAll_append, Bool.and_eq_true] at sound
      rw [soundAll, ih sound.2]
      rfl
  | nested parts rest ihParts ih =>
      simp only [soundAll, Instruction.sound, Bool.and_eq_true, settles_iff] at sound ⊢
      obtain ⟨⟨⟨shape, found, proper⟩, inner⟩, others⟩ := sound
      exact ⟨⟨⟨shape, parts.scanned found, proper⟩, ihParts inner⟩, ih others⟩
  | same instruction rest ih =>
      simp only [soundAll, Bool.and_eq_true] at sound ⊢
      exact ⟨sound.1, ih sound.2⟩

theorem disciplined (folds : Folds facts before after) (disciplined : before.disciplined = true) :
    after.disciplined = true := by
  simp only [Program.disciplined, Bool.and_eq_true, settles_iff] at disciplined ⊢
  obtain ⟨⟨shape, found, proper⟩, sound⟩ := disciplined
  exact ⟨⟨shape, folds.scanned found, proper⟩, folds.sound sound⟩

end Folds

/-- Facts that say nothing. -/
def anyFacts : Facts :=
  ⟨fun _ _ => True, fun _ _ _ => True, fun _ _ _ _ => True, fun _ _ => True, fun _ _ _ _ _ => True,
    fun _ _ _ => True⟩

theorem Simplification.learns_any (perform : Machine.Perform) (dialect : Nat) (values : Entries) :
    Learns perform dialect values anyFacts fun _ => True where
  name _ _ := trivial
  unary _ _ := ⟨trivial, trivial⟩
  binary _ _ := ⟨trivial, trivial⟩
  truth _ _ := trivial
  ternary _ _ := ⟨trivial, trivial⟩
  member _ _ _ _ := trivial

theorem simplify_disciplined {perform : Machine.Perform} {dialect : Nat} {values : Entries}
    {program result : Program} {state after : State} (disciplined : program.disciplined = true)
    (found : program.simplify perform dialect values state = some (.ok result, after)) :
    result.disciplined = true :=
  (Simplification.folds_simplify (Simplification.learns_any perform dialect values) trivial found).2.disciplined
    disciplined

/-- A shape that may stand where another did: a program for a value. -/
inductive Shape.Softer : Shape → Shape → Prop
  | same (shape : Shape) : Softer shape shape
  | unevaluated : Softer .value .suspended

theorem Shape.Softer.ne_target {one other : Shape} (softer : Softer one other)
    (proper : one ≠ .target) : other ≠ .target := by
  cases softer with
  | same shape => exact proper
  | unevaluated => decide

abbrev Softened : List Shape → List Shape → Prop := List.Forall₂ Shape.Softer

theorem softened_refl (stack : List Shape) : Softened stack stack :=
  List.forall₂_same.mpr fun shape _ => .same shape

theorem accepts_softer {demand : Demand} {one other : Shape} (softer : one.Softer other)
    (accepted : demand.accepts one = true) : demand.accepts other = true := by
  cases softer with
  | same shape => exact accepted
  | unevaluated => cases demand <;> first | rfl | cases accepted

theorem take_softened {demands : List Demand} {stack other lower : List Shape}
    (softened : Softened stack other) (taken : take demands stack = some lower) :
    ∃ rest, take demands other = some rest ∧ Softened lower rest := by
  induction demands generalizing stack other with
  | nil =>
      cases taken
      exact ⟨other, rfl, softened⟩
  | cons demand demands ih =>
      cases softened with
      | nil => cases taken
      | cons first rest =>
          simp only [take] at taken ⊢
          split at taken
          · rename_i accepted
            rw [if_pos (accepts_softer first accepted)]
            exact ih rest taken
          · cases taken

namespace Instruction

variable {sought : Text} {replacement : Program}

/-- A program that is as sound as another, and leaves the same but for programs in place of values. -/
structure Softens (before after : Program) : Prop where
  sound : soundAll before = true → soundAll after = true
  scanned : ∀ {stack result other}, scan before stack = some result → Softened stack other →
    ∃ rest, scan after other = some rest ∧ Softened result rest

theorem softens_refl (program : Program) : Softens program program where
  sound sound := sound
  scanned := by
    induction program with
    | nil =>
        rintro stack result other ⟨⟩ softened
        exact ⟨other, rfl, softened⟩
    | cons instruction rest ih =>
        intro stack result other found softened
        simp only [scan] at found ⊢
        cases taken : take instruction.demands stack with
        | none => simp [taken] at found
        | some lower =>
            rw [taken] at found
            obtain ⟨under, takenOther, softer⟩ := take_softened softened taken
            rw [takenOther]
            exact ih found (List.rel_append (softened_refl _) softer)

theorem Softens.append {before after first last : Program} (left : Softens before after)
    (right : Softens first last) : Softens (before ++ first) (after ++ last) where
  sound sound := by
    rw [soundAll_append, Bool.and_eq_true] at sound ⊢
    exact ⟨left.sound sound.1, right.sound sound.2⟩
  scanned := by
    intro stack result other found softened
    rw [scan_append, Option.bind_eq_some_iff] at found
    obtain ⟨between, one, two⟩ := found
    obtain ⟨middle, scannedMiddle, softenedMiddle⟩ := left.scanned one softened
    obtain ⟨rest, scannedRest, softenedRest⟩ := right.scanned two softenedMiddle
    exact ⟨rest, by rw [scan_append, scannedMiddle]; exact scannedRest, softenedRest⟩

theorem Softens.disciplined {before after : Program} (softens : Softens before after)
    (disciplined : before.disciplined = true) : after.disciplined = true := by
  simp only [Program.disciplined, Bool.and_eq_true, settles_iff] at disciplined ⊢
  obtain ⟨⟨shape, found, proper⟩, sound⟩ := disciplined
  obtain ⟨rest, scanned, softened⟩ := softens.scanned found .nil
  refine ⟨?_, softens.sound sound⟩
  cases softened with
  | cons softer last =>
      cases last with
      | nil => exact ⟨_, scanned, softer.ne_target proper⟩

theorem softens_nested {part inner : Program} (softens : Softens part inner) :
    Softens [.nested part] [.nested inner] where
  sound sound := by
    simp only [soundAll, Instruction.sound, Bool.and_true] at sound ⊢
    exact softens.disciplined sound
  scanned := by
    rintro stack result other ⟨⟩ softened
    exact ⟨_, rfl, .cons (.same _) softened⟩

/-- A disciplined program in place of the value of a name. -/
theorem softens_name {replacement : Program} (disciplined : replacement.disciplined = true)
    (word : Text) : Softens [.name word] replacement where
  sound _ := (Bool.and_eq_true _ _ ▸ disciplined : _ ∧ _).2
  scanned := by
    rintro stack result other ⟨⟩ softened
    obtain ⟨⟨shape, found, proper⟩, -⟩ := disciplined_iff.mp disciplined
    refine ⟨_, scan_frame found other, .cons ?_ softened⟩
    cases shape with
    | value => exact .same _
    | suspended => exact .unevaluated
    | target => exact absurd rfl proper

variable {sought : Text} {replacement : Program}

theorem softens_substituteAll (disciplined : replacement.disciplined = true)
    (program : List Instruction) :
    Softens program (substituteAll sought replacement program) := by
  cases program with
  | nil => exact softens_refl []
  | cons instruction rest =>
      have first : Softens [instruction] (substitute sought replacement instruction) := by
        cases instruction with
        | name word =>
            simp only [substitute]
            split
            · exact softens_name disciplined word
            · exact softens_refl _
        | nested part =>
            exact softens_nested (softens_substituteAll disciplined part)
        | _ => exact softens_refl _
      exact first.append (softens_substituteAll disciplined rest)

end Instruction

theorem substitute_disciplined {program replacement : Program} (word : Text)
    (disciplined : program.disciplined = true) (proper : replacement.disciplined = true) :
    (program.substitute word replacement).disciplined = true :=
  (Instruction.softens_substituteAll proper program).disciplined disciplined

end Formula
