import Formula.Grammar
import Formula.Proofs.Discipline

/-!
The programs of terms keep the discipline of the stack, and every term that the parser gives has such a
program.
-/

namespace Formula

namespace Term

mutual

/-- Whether only assignments are assignments: no operator of a term has their symbol. -/
def ordinary : Term → Bool
  | .literal _ | .name _ => true
  | .unary _ operand => operand.ordinary
  | .binary symbol left right | .shortCircuit symbol left right =>
    symbol ≠ assignSymbol && left.ordinary && right.ordinary
  | .conditional condition yes no => condition.ordinary && yes.ordinary && no.ordinary
  | .assign _ value => value.ordinary
  | .assignMember object _ value => object.ordinary && value.ordinary
  | .define _ _ body => body.ordinary
  | .call callee arguments => callee.ordinary && allOrdinary arguments
  | .member object _ => object.ordinary
  | .array items => allOrdinary items
  | .statement body => body.ordinary
  | .sequence first rest => first.ordinary && rest.ordinary

def allOrdinary : List Term → Bool
  | [] => true
  | term :: rest => term.ordinary && allOrdinary rest

end

theorem allOrdinary_iff {terms : List Term} :
    allOrdinary terms = true ↔ ∀ term ∈ terms, term.ordinary = true := by
  induction terms with
  | nil => simp [allOrdinary]
  | cons term rest ih => simp [allOrdinary, ih]

/-- What the program of a term leaves on the stack. -/
def shape : Term → Shape
  | .statement _ | .sequence _ _ => .suspended
  | _ => .value

theorem shape_ne_target (term : Term) : term.shape ≠ .target := by
  cases term <;> simp [shape]

/-- Operands are taken whatever they are, targets apart. -/
theorem take_operands (shapes : List Shape) (proper : ∀ shape ∈ shapes, shape ≠ .target)
    (base : List Shape) :
    take (List.replicate shapes.length .operand) (shapes ++ base) = some base := by
  induction shapes with
  | nil => rfl
  | cons shape rest ih =>
      have accepted : Demand.operand.accepts shape = true :=
        decide_eq_true (proper shape List.mem_cons_self)
      rw [List.length_cons, List.replicate_succ, List.cons_append, take, if_pos accepted]
      exact ih fun other member => proper other (List.mem_cons_of_mem shape member)

theorem take_targets (count : Nat) (base : List Shape) :
    take (List.replicate count .target) (List.replicate count .target ++ base) = some base := by
  induction count with
  | zero => rfl
  | succ count ih =>
      rw [List.replicate_succ, List.replicate_succ, List.cons_append, take]
      exact ih

theorem scan_targets (names : List Text) (stack : List Shape) :
    scan (names.map .target) stack = some (List.replicate names.length .target ++ stack) := by
  induction names generalizing stack with
  | nil => rfl
  | cons name rest ih =>
      simp only [List.map_cons, scan, Instruction.demands, take, Instruction.yields]
      rw [ih, List.length_cons, List.replicate_succ']
      simp

/-- A sound program that leaves some operands on any stack. -/
structure Coded (program : Program) (shapes : List Shape) : Prop where
  scanned : ∀ stack, scan program stack = some (shapes ++ stack)
  sound : soundAll program = true

namespace Coded

variable {program first second : Program} {shapes others : List Shape} {one : Shape}

theorem append (left : Coded first shapes) (right : Coded second others) :
    Coded (first ++ second) (others ++ shapes) where
  scanned stack := by
    rw [scan_append, left.scanned, Option.bind_some, right.scanned, List.append_assoc]
  sound := by rw [soundAll_append, left.sound, right.sound]; rfl

/-- An instruction after the program of its operands. -/
theorem apply (operands : Coded program shapes) {instruction : Instruction}
    (taken : ∀ stack, take instruction.demands (shapes ++ stack) = some stack)
    (sound : instruction.sound = true) :
    Coded (program ++ [instruction]) instruction.yields where
  scanned stack := by
    rw [scan_append, operands.scanned, Option.bind_some, scan, taken]
    rfl
  sound := by rw [soundAll_append, operands.sound, soundAll, sound]; rfl

theorem disciplined (coded : Coded program [one]) (proper : one ≠ .target) :
    program.disciplined = true := by
  rw [Program.disciplined, Bool.and_eq_true, settles_iff]
  exact ⟨⟨one, coded.scanned [], proper⟩, coded.sound⟩

/-- An instruction that takes nothing. -/
theorem single {instruction : Instruction} (demands : instruction.demands = [])
    (sound : instruction.sound = true) : Coded [instruction] instruction.yields where
  scanned stack := by
    rw [scan, demands]
    rfl
  sound := by rw [soundAll, sound]; rfl

theorem nested (coded : Coded program [one]) (proper : one ≠ .target) :
    Coded [.nested program] [.suspended] :=
  single rfl (coded.disciplined proper)

end Coded

theorem take_pair {left right : Shape} (properLeft : left ≠ .target) (properRight : right ≠ .target)
    (stack : List Shape) : take [.operand, .operand] ([right] ++ [left] ++ stack) = some stack :=
  take_operands [right, left] (by simp [properLeft, properRight]) stack

theorem demands_binary {symbol : Text} (other : symbol ≠ assignSymbol) :
    (Instruction.binary symbol).demands = [.operand, .operand] := if_neg other

theorem coded_targets (names : List Text) :
    Coded (names.map .target) (List.replicate names.length .target) where
  scanned := scan_targets names
  sound := soundAll_iff.mpr fun instruction member => by
    obtain ⟨name, -, rfl⟩ := List.mem_map.mp member
    rfl

/-- The operands of a call or of an array are as many as it asks for. -/
theorem take_all (terms : List Term) (count : Nat) (enough : terms.length = count)
    (base : List Shape) :
    take (List.replicate count .operand) ((terms.map shape).reverse ++ base) = some base := by
  have proper : ∀ one ∈ (terms.map shape).reverse, one ≠ Shape.target := by
    intro one member
    obtain ⟨term, -, rfl⟩ := List.mem_map.mp (List.mem_reverse.mp member)
    exact shape_ne_target term
  have taken := take_operands _ proper base
  rwa [List.length_reverse, List.length_map, enough] at taken

mutual

/-- The program of a term is sound and leaves one operand. -/
theorem code_coded (term : Term) (ordinary : term.ordinary = true) :
    Coded term.code [term.shape] := by
  cases term with
  | literal value => exact .single rfl rfl
  | name word => exact .single rfl rfl
  | unary symbol operand =>
      exact (code_coded operand ordinary).apply
        (take_operands [_] (by simp [shape_ne_target operand])) rfl
  | binary symbol left right =>
      simp only [Term.ordinary, Bool.and_eq_true, decide_eq_true_eq] at ordinary
      refine (code_coded left ordinary.1.2).append (code_coded right ordinary.2) |>.apply ?_ rfl
      rw [demands_binary ordinary.1.1]
      exact take_pair (shape_ne_target left) (shape_ne_target right)
  | shortCircuit symbol left right =>
      simp only [Term.ordinary, Bool.and_eq_true, decide_eq_true_eq] at ordinary
      have operands := (code_coded left ordinary.1.2).append
        ((code_coded right ordinary.2).nested (shape_ne_target right))
      rw [code, List.append_cons]
      refine operands.apply ?_ rfl
      rw [demands_binary ordinary.1.1]
      exact take_pair (shape_ne_target left) (by decide)
  | conditional condition yes no =>
      simp only [Term.ordinary, Bool.and_eq_true] at ordinary
      have operands := ((code_coded condition ordinary.1.1).append
        ((code_coded yes ordinary.1.2).nested (shape_ne_target yes))).append
        ((code_coded no ordinary.2).nested (shape_ne_target no))
      rw [code, List.append_cons, List.append_cons]
      exact operands.apply (take_operands [_, _, _] (by simp [shape_ne_target condition])) rfl
  | assign target value =>
      have named : Coded [.target target] [.target] := .single rfl rfl
      have operands := named.append ((code_coded value ordinary).nested (shape_ne_target value))
      exact operands.apply (fun _ => rfl) rfl
  | assignMember object key value =>
      simp only [Term.ordinary, Bool.and_eq_true] at ordinary
      have named : Coded [.target key] [.target] := .single rfl rfl
      have operands := ((code_coded object ordinary.1).append named).append
        ((code_coded value ordinary.2).nested (shape_ne_target value))
      rw [code, List.append_cons, List.append_cons]
      refine operands.apply (fun stack => ?_) rfl
      exact take_operands [_] (by simp [shape_ne_target object]) stack
  | define function parameters body =>
      have operands := (coded_targets (function :: parameters)).append
        ((code_coded body ordinary).nested (shape_ne_target body))
      rw [code, List.append_cons]
      exact operands.apply (fun stack => take_targets (parameters.length + 1) stack)
        (by simp [Instruction.sound])
  | call callee arguments =>
      simp only [Term.ordinary, Bool.and_eq_true] at ordinary
      have operands := (code_coded callee ordinary.1).append (codeAll_coded arguments ordinary.2)
      refine operands.apply (fun stack => ?_) (by simp [Instruction.sound])
      have taken := take_all (callee :: arguments) (arguments.length + 1) rfl stack
      rwa [List.map_cons, List.reverse_cons] at taken
  | member object key =>
      exact (code_coded object ordinary).apply
        (take_operands [_] (by simp [shape_ne_target object])) rfl
  | array items =>
      exact (codeAll_coded items ordinary).apply (take_all items items.length rfl)
        (by simp [Instruction.sound])
  | statement body =>
      exact (code_coded body ordinary).nested (shape_ne_target body)
  | sequence first rest =>
      simp only [Term.ordinary, Bool.and_eq_true] at ordinary
      have dropped : Coded (first.code ++ [.discard]) [] := (code_coded first ordinary.1).apply
        (take_operands [_] (by simp [shape_ne_target first])) rfl
      have statements := dropped.append (code_coded rest ordinary.2)
      rw [code, List.append_cons]
      exact statements.nested (shape_ne_target rest)

theorem codeAll_coded (terms : List Term) (ordinary : allOrdinary terms = true) :
    Coded (codeAll terms) (terms.map shape).reverse := by
  cases terms with
  | nil => exact ⟨fun _ => rfl, rfl⟩
  | cons term rest =>
      simp only [allOrdinary, Bool.and_eq_true] at ordinary
      rw [List.map_cons, List.reverse_cons]
      exact (code_coded term ordinary.1).append (codeAll_coded rest ordinary.2)

end

theorem scanned_append {first second : Program} {stack after : List Shape}
    (found : scan (first ++ second) stack = some after) :
    ∃ between, scan first stack = some between ∧ scan second between = some after := by
  rwa [scan_append, Option.bind_eq_some_iff] at found

theorem sound_append {first second : Program} (sound : soundAll (first ++ second) = true) :
    soundAll first = true ∧ soundAll second = true := by
  rwa [soundAll_append, Bool.and_eq_true] at sound

theorem scanned_tail {instruction : Instruction} {rest : Program} {stack after : List Shape}
    (found : scan (instruction :: rest) stack = some after) :
    ∃ between, scan rest between = some after := by
  obtain ⟨between, -, later⟩ := scanned_append (List.singleton_append ▸ found)
  exact ⟨between, later⟩

theorem sound_tail {instruction : Instruction} {rest : Program}
    (sound : soundAll (instruction :: rest) = true) : soundAll rest = true :=
  (Bool.and_eq_true_iff.mp sound).2

/-- What the last of some sound instructions holds is scanned from the empty stack. -/
theorem sound_nested {inner rest : Program} (sound : soundAll (.nested inner :: rest) = true) :
    (∃ after, scan inner [] = some after) ∧ soundAll inner = true ∧ soundAll rest = true := by
  simp only [soundAll, Instruction.sound, Bool.and_eq_true, settles_iff] at sound
  obtain ⟨⟨⟨shape, scanned, -⟩, inside⟩, others⟩ := sound
  exact ⟨⟨_, scanned⟩, inside, others⟩

/-- No operator that takes two operands is an assignment: no operand of a term is a target. -/
theorem other_of_scan {symbol : Text} {last : Shape} {left : Term} {stack after : List Shape}
    (scanned : scan [.binary symbol] (last :: left.shape :: stack) = some after) :
    symbol ≠ assignSymbol := by
  rintro rfl
  have demands : (Instruction.binary assignSymbol).demands = [.suspended, .target] := rfl
  have refused : Demand.target.accepts left.shape = false := by
    cases left <;> rfl
  simp only [scan, demands, take, refused] at scanned
  split at scanned
  · rename_i taken
    split at taken <;> cases taken
  · cases scanned

mutual

/-- A term is ordinary if its program keeps the discipline of the stack. -/
theorem ordinary_of_scan (term : Term) {stack after : List Shape}
    (scanned : scan term.code stack = some after) (sound : soundAll term.code = true) :
    term.ordinary = true := by
  cases term with
  | literal value => rfl
  | name word => rfl
  | unary symbol operand =>
      obtain ⟨_, first, -⟩ := scanned_append scanned
      exact ordinary_of_scan operand first (sound_append sound).1
  | binary symbol left right =>
      obtain ⟨between, operands, last⟩ := scanned_append scanned
      obtain ⟨lower, first, second⟩ := scanned_append operands
      obtain ⟨soundLeft, soundRight⟩ := sound_append (sound_append sound).1
      have ordinaryLeft := ordinary_of_scan left first soundLeft
      have ordinaryRight := ordinary_of_scan right second soundRight
      rw [(code_coded left ordinaryLeft).scanned] at first
      cases first
      rw [(code_coded right ordinaryRight).scanned] at second
      cases second
      simp [Term.ordinary, other_of_scan last, ordinaryLeft, ordinaryRight]
  | shortCircuit symbol left right =>
      obtain ⟨lower, first, last⟩ := scanned_append scanned
      obtain ⟨soundLeft, soundRest⟩ := sound_append sound
      obtain ⟨⟨_, second⟩, soundRight, -⟩ := sound_nested soundRest
      have ordinaryLeft := ordinary_of_scan left first soundLeft
      rw [(code_coded left ordinaryLeft).scanned] at first
      cases first
      simp [Term.ordinary, other_of_scan last, ordinaryLeft,
        ordinary_of_scan right second soundRight]
  | conditional condition yes no =>
      obtain ⟨_, first, -⟩ := scanned_append scanned
      obtain ⟨soundCondition, soundRest⟩ := sound_append sound
      obtain ⟨⟨_, second⟩, soundYes, soundLast⟩ := sound_nested soundRest
      obtain ⟨⟨_, third⟩, soundNo, -⟩ := sound_nested soundLast
      simp [Term.ordinary, ordinary_of_scan condition first soundCondition,
        ordinary_of_scan yes second soundYes, ordinary_of_scan no third soundNo]
  | assign target value =>
      obtain ⟨⟨_, inner⟩, soundValue, -⟩ := sound_nested (sound_tail sound)
      exact ordinary_of_scan value inner soundValue
  | assignMember object key value =>
      obtain ⟨_, first, -⟩ := scanned_append scanned
      obtain ⟨soundObject, soundRest⟩ := sound_append sound
      obtain ⟨⟨_, inner⟩, soundValue, -⟩ := sound_nested (sound_tail soundRest)
      simp [Term.ordinary, ordinary_of_scan object first soundObject,
        ordinary_of_scan value inner soundValue]
  | define function parameters body =>
      obtain ⟨-, soundLast⟩ := sound_append (sound_tail sound)
      obtain ⟨⟨_, inner⟩, soundBody, -⟩ := sound_nested soundLast
      exact ordinary_of_scan body inner soundBody
  | call callee arguments =>
      obtain ⟨_, operands, -⟩ := scanned_append scanned
      obtain ⟨_, first, second⟩ := scanned_append operands
      obtain ⟨soundCallee, soundArguments⟩ := sound_append (sound_append sound).1
      simp [Term.ordinary, ordinary_of_scan callee first soundCallee,
        allOrdinary_of_scan arguments second soundArguments]
  | member object key =>
      obtain ⟨_, first, -⟩ := scanned_append scanned
      exact ordinary_of_scan object first (sound_append sound).1
  | array items =>
      obtain ⟨_, first, -⟩ := scanned_append scanned
      exact allOrdinary_of_scan items first (sound_append sound).1
  | statement body =>
      obtain ⟨⟨_, inner⟩, soundBody, -⟩ := sound_nested sound
      exact ordinary_of_scan body inner soundBody
  | sequence first rest =>
      obtain ⟨⟨_, inner⟩, soundBoth, -⟩ := sound_nested sound
      obtain ⟨_, before, after⟩ := scanned_append inner
      obtain ⟨soundFirst, soundRest⟩ := sound_append soundBoth
      obtain ⟨_, last⟩ := scanned_tail after
      simp [Term.ordinary, ordinary_of_scan first before soundFirst,
        ordinary_of_scan rest last (sound_tail soundRest)]

theorem allOrdinary_of_scan (terms : List Term) {stack after : List Shape}
    (scanned : scan (codeAll terms) stack = some after) (sound : soundAll (codeAll terms) = true) :
    allOrdinary terms = true := by
  cases terms with
  | nil => rfl
  | cons term rest =>
      obtain ⟨_, first, later⟩ := scanned_append scanned
      obtain ⟨soundFirst, soundLater⟩ := sound_append sound
      simp [allOrdinary, ordinary_of_scan term first soundFirst,
        allOrdinary_of_scan rest later soundLater]

end

/-- A term is ordinary if its program is disciplined. -/
theorem ordinary_of_disciplined {term : Term} (disciplined : term.code.disciplined = true) :
    term.ordinary = true := by
  obtain ⟨⟨shape, scanned, -⟩, -⟩ := disciplined_iff.mp disciplined
  exact ordinary_of_scan term scanned (Bool.and_eq_true_iff.mp disciplined).2

end Term

end Formula
