import Formula.Program.Symbols
import Formula.Proofs.Contents
import Formula.Proofs.Discipline

/-!
The names of a program are those that its instructions read or bind, at any depth.
-/

namespace Formula

theorem mem_addName {names : List Text} {name word : Text} :
    word ∈ addName names name ↔ word ∈ names ∨ word = name := by
  unfold addName
  split
  · rename_i inside
    exact ⟨.inl, fun either => either.elim id fun same => same ▸ inside⟩
  · rw [List.mem_append, List.mem_singleton]

namespace Instruction

mutual

theorem mem_collectNames (instruction : Instruction) (sound : instruction.sound = true) {names : List Text}
    {word : Text} : word ∈ collectNames names instruction ↔
      word ∈ names ∨ .name word ∈ instruction.contents ∨ .target word ∈ instruction.contents := by
  match instruction with
  | .name known =>
      rw [collectNames, mem_addName]
      simp [contents, eq_comm]
  | .target known =>
      rw [collectNames, mem_addName]
      simp [contents]
  | .nested program =>
      exact mem_collectAllNames program (Bool.and_eq_true_iff.mp sound).2
  | .suspended _ => cases sound
  | .literal _ | .unary _ | .binary _ | .ternary _ | .call _ | .define _ | .member _ | .discard
  | .array _ => simp [collectNames, contents]

theorem mem_collectAllNames (program : List Instruction) (sound : soundAll program = true)
    {names : List Text} {word : Text} : word ∈ collectAllNames names program ↔
      word ∈ names ∨ .name word ∈ allContents program ∨ .target word ∈ allContents program := by
  match program with
  | [] => simp [collectAllNames, allContents]
  | instruction :: rest =>
      obtain ⟨first, others⟩ := Bool.and_eq_true_iff.mp sound
      rw [collectAllNames, mem_collectAllNames rest others, mem_collectNames instruction first, allContents]
      simp only [List.mem_append]
      tauto

end

end Instruction

/-- The names of a program are those that it reads or binds. -/
theorem Program.mem_names {program : Program} (disciplined : program.disciplined = true) {word : Text} :
    word ∈ program.names ↔ .name word ∈ program.contents ∨ .target word ∈ program.contents := by
  have sound : soundAll program = true := (Bool.and_eq_true_iff.mp disciplined).2
  rw [names, Instruction.mem_collectAllNames program sound]
  simp [contents]

end Formula
