import Formula.Program.Rendering
import Formula.Term

/-!
The source text of a term. The program of a term, turned into text again, gives this text.
-/

namespace Formula

namespace Term

open Rendering (enclosed sign)

mutual

/-- The source text of a term, with parentheses around every operator. -/
def written (heap : Heap) : Term → Text
  | .literal value => Rendering.literal heap value
  | .name word => word
  | .unary symbol operand => Rendering.unary symbol (operand.written heap)
  | .binary symbol left right => Rendering.binary symbol (left.written heap) (right.written heap)
  | .shortCircuit symbol left right =>
    Rendering.binary symbol (left.written heap) (enclosed '(' (right.written heap) ')')
  | .conditional condition yes no =>
    enclosed '(' (condition.written heap ++ Text.ofString " ? " ++ enclosed '(' (yes.written heap) ')' ++
      Text.ofString " : " ++ enclosed '(' (no.written heap) ')') ')'
  | .assign target value => Rendering.binary assignSymbol target (enclosed '(' (value.written heap) ')')
  | .assignMember object key value =>
    enclosed '(' (object.written heap ++ sign '.' ++ key ++ Text.ofString " = " ++
      enclosed '(' (value.written heap) ')') ')'
  | .define function parameters body =>
    enclosed '(' (function ++ enclosed '(' (Rendering.listed parameters) ')' ++ Text.ofString " = " ++
      enclosed '(' (body.written heap) ')') ')'
  | .call callee arguments =>
    callee.written heap ++ enclosed '(' (Rendering.listed (writtenAll heap arguments)) ')'
  | .member object key => object.written heap ++ '.'.toNat :: key
  | .array items => enclosed '[' (Rendering.listed (writtenAll heap items)) ']'
  | .statement body => enclosed '(' (body.written heap) ')'
  | .sequence first rest => enclosed '(' (first.written heap ++ sign ';' ++ rest.written heap) ')'

def writtenAll (heap : Heap) : List Term → List Text
  | [] => []
  | term :: rest => term.written heap :: writtenAll heap rest

end

theorem length_writtenAll (heap : Heap) (terms : List Term) : (writtenAll heap terms).length = terms.length := by
  induction terms with
  | nil => rfl
  | cons term rest ih => rw [writtenAll, List.length_cons, List.length_cons, ih]

end Term

namespace Rendering

variable {heap : Heap}

/-- An instruction that asks for as many texts as were put there last takes them in order. -/
theorem takeParts_reverse {count : Nat} (items : List Text) (parts : Parts) (same : items.length = count) :
    takeParts count (items.reverse ++ parts) = (items, parts) := by
  have enough : (count : Int) ≤ (items.reverse ++ parts).length := by
    rw [List.length_append, List.length_reverse, same]
    omega
  have size : available count (items.reverse ++ parts).length = items.reverse.length := by
    rw [available, if_pos enough, List.length_reverse, same]
    rfl
  simp only [takeParts, size, List.take_left, List.drop_left, List.reverse_reverse]

/-- A program that puts some texts there, whatever there was before. -/
def Puts (heap : Heap) (program : Program) (texts : List Text) : Prop :=
  ∀ parts rest, instructions heap (program ++ rest) parts = instructions heap rest (texts.reverse ++ parts)

namespace Puts

variable {program other : Program} {texts others : List Text}

theorem nil : Puts heap [] [] := fun _ _ => rfl

theorem append (first : Puts heap program texts) (second : Puts heap other others) :
    Puts heap (program ++ other) (texts ++ others) := by
  intro parts rest
  rw [List.append_assoc, first, second, List.reverse_append, List.append_assoc]

/-- One more instruction that makes one text of all that was put there. -/
theorem step (instruction : Instruction) {text : Text} (first : Puts heap program texts)
    (last : ∀ parts, Rendering.instruction heap instruction (texts.reverse ++ parts) = .ok (text :: parts)) :
    Puts heap (program ++ [instruction]) [text] := by
  intro parts rest
  rw [List.append_assoc, first, List.singleton_append, instructions, last]
  rfl

theorem single {instruction : Instruction} {text : Text}
    (puts : ∀ parts, Rendering.instruction heap instruction parts = .ok (text :: parts)) :
    Puts heap [instruction] [text] := by
  intro parts rest
  rw [List.singleton_append, instructions, puts]
  rfl

/-- A program of its own is put there in parentheses. -/
theorem nested {inner : Parts} (runs : instructions heap program [] = .ok inner) :
    Puts heap [.nested program] [enclosed '(' (finish inner) ')'] := by
  refine single fun parts => ?_
  rw [instruction, runs]
  rfl

theorem runs (puts : Puts heap program texts) : instructions heap program [] = .ok texts.reverse := by
  have all := puts [] []
  rwa [List.append_nil, List.append_nil, instructions] at all

theorem targets (names : List Text) : Puts heap (names.map .target) names := by
  induction names with
  | nil => exact nil
  | cons name names ih => exact (single fun _ => rfl : Puts heap [.target name] [name]).append ih

end Puts

end Rendering

namespace Term

open Rendering (Puts)

/-- A program of its own with one text. -/
theorem puts_nested {heap : Heap} {program : Program} {text : Text} (puts : Puts heap program [text]) :
    Puts heap [.nested program] [Rendering.enclosed '(' text ')'] :=
  .nested puts.runs

mutual

/-- The program of a term puts its source text there. -/
theorem puts_written (heap : Heap) (term : Term) : Puts heap term.code [term.written heap] := by
  cases term with
  | literal value => exact .single fun _ => rfl
  | name word => exact .single fun _ => rfl
  | unary symbol operand => exact (puts_written heap operand).step (.unary symbol) fun _ => rfl
  | binary symbol left right =>
      exact ((puts_written heap left).append (puts_written heap right)).step (.binary symbol) fun _ => rfl
  | shortCircuit symbol left right =>
      have puts := (puts_written heap left).append (puts_nested (puts_written heap right))
      simpa [code, written] using puts.step (.binary symbol) fun _ => rfl
  | conditional condition yes no =>
      have arms := (puts_nested (puts_written heap yes)).append (puts_nested (puts_written heap no))
      have puts := (puts_written heap condition).append arms
      simpa [code, written] using puts.step (.ternary conditionSymbol) fun _ => rfl
  | assign target value =>
      have puts := (Puts.targets [target]).append (puts_nested (puts_written heap value))
      simpa [code, written] using puts.step (.binary assignSymbol) fun _ => rfl
  | assignMember object key value =>
      have targets := (Puts.targets [key]).append (puts_nested (puts_written heap value))
      have puts := (puts_written heap object).append targets
      simpa [code, written] using puts.step (.ternary assignSymbol) fun _ => rfl
  | define function parameters body =>
      have targets : Puts heap ((function :: parameters).map .target) (function :: parameters) := .targets _
      have puts := (targets.append (puts_nested (puts_written heap body))).step (.define parameters.length) fun parts => by
        have taken := Rendering.takeParts_reverse parameters (function :: parts) rfl
        simp only [List.reverse_append, List.reverse_cons, List.reverse_nil, List.nil_append, List.append_assoc,
          List.cons_append, Rendering.instruction, Rendering.pop, bind, Except.bind, taken]
        rfl
      simpa [code, written] using puts
  | call callee arguments =>
      have puts := (puts_written heap callee).append (puts_writtenAll heap arguments)
      refine puts.step (.call arguments.length) fun parts => ?_
      have taken := Rendering.takeParts_reverse (writtenAll heap arguments)
        (callee.written heap :: parts) (length_writtenAll heap arguments)
      simp only [List.reverse_cons, List.nil_append, List.append_assoc, List.cons_append, Rendering.instruction,
        taken]
      rfl
  | member object key => exact (puts_written heap object).step (.member key) fun _ => rfl
  | array items =>
      refine (puts_writtenAll heap items).step (.array items.length) fun parts => ?_
      have taken := Rendering.takeParts_reverse (writtenAll heap items) parts (length_writtenAll heap items)
      rw [Rendering.instruction, taken]
      rfl
  | statement body => exact puts_nested (puts_written heap body)
  | sequence first rest =>
      have runs : Rendering.instructions heap (first.code ++ .discard :: rest.code) [] =
          .ok [rest.written heap, first.written heap] := by
        have puts := puts_written heap rest [first.written heap] []
        rw [List.append_nil] at puts
        rw [puts_written heap first, Rendering.instructions]
        exact puts
      exact .nested runs

theorem puts_writtenAll (heap : Heap) (terms : List Term) :
    Puts heap (codeAll terms) (writtenAll heap terms) := by
  cases terms with
  | nil => exact .nil
  | cons term rest => exact (puts_written heap term).append (puts_writtenAll heap rest)

end

/-- The program of a term, turned into text. -/
theorem render_code (heap : Heap) (term : Term) : term.code.render heap = .ok (term.written heap) := by
  rw [Program.render, (puts_written heap term).runs]
  rfl

end Term

end Formula
