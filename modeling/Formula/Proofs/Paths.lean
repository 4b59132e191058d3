import Mathlib.Data.List.Induction
import Mathlib.Data.List.Nodup
import Formula.Proofs.Symbols

/-!
The dotted paths of a program. A variable makes one path with the member steps directly after it. The
list of paths is right where a path is not open across a nested program: there, the list has the names
of the nested program first, and a member step on its value extends the path.
-/

namespace Formula

theorem nodup_addName {names : List Text} (distinct : names.Nodup) (name : Text) :
    (addName names name).Nodup := by
  unfold addName
  split
  · exact distinct
  · rename_i absent
    rw [List.nodup_append]
    refine ⟨distinct, List.nodup_singleton name, ?_⟩
    intro known member word among same
    exact absent (List.mem_singleton.mp among ▸ same ▸ member)

theorem nodup_addPending {names : List Text} (distinct : names.Nodup) (pending : Option Text) :
    (addPending names pending).Nodup := by
  cases pending with
  | none => exact distinct
  | some path => exact nodup_addName distinct path

/-- Names that are added one by one stand as they first appeared. -/
theorem foldl_addName (found : List Text) : found.foldl addName [] = found.eraseDups := by
  induction found using List.reverseRecOn with
  | nil => rfl
  | append_singleton earlier name ih =>
      rw [List.foldl_append, ih, List.eraseDups_append, List.foldl_cons, List.foldl_nil, addName]
      by_cases known : name ∈ earlier
      · simp [List.removeAll, known]
      · simp [List.removeAll, known, List.eraseDups_cons]

theorem mem_addPending {names : List Text} {pending : Option Text} {word : Text} :
    word ∈ addPending names pending ↔ word ∈ names ∨ word ∈ pending.toList := by
  cases pending with
  | none => simp [addPending]
  | some path => simp [addPending, mem_addName]

namespace Instruction

/-- A path with the member steps that a program begins with. -/
def dotted (path : Text) : List Instruction → Text
  | .member word :: rest => dotted (path ++ '.'.toNat :: word) rest
  | _ => path

mutual

/-- The path that an instruction begins, or the paths in the program that it holds. -/
def occurrences (rest : List Instruction) : Instruction → List Text
  | .name word | .target word => [dotted word rest]
  | .nested program => allOccurrences program
  | _ => []

def allOccurrences : List Instruction → List Text
  | [] => []
  | instruction :: rest => instruction.occurrences rest ++ allOccurrences rest

end

/-- Whether a path is open after an instruction. -/
def leavesOpen (extending : Bool) : Instruction → Bool
  | .name _ | .target _ => true
  | .member _ | .nested _ => extending
  | _ => false

mutual

/-- Whether the nested programs that stand after an open path are admitted, by what they are and by what
follows them. -/
def guarded (admits : List Instruction → List Instruction → Bool) (extending : Bool)
    (rest : List Instruction) : Instruction → Bool
  | .nested program => (!extending || admits program rest) && allGuarded admits false program
  | _ => true

def allGuarded (admits : List Instruction → List Instruction → Bool) (extending : Bool) :
    List Instruction → Bool
  | [] => true
  | instruction :: rest =>
    instruction.guarded admits extending rest &&
      allGuarded admits (instruction.leavesOpen extending) rest

end

def beginsWithMember : List Instruction → Bool
  | .member _ :: _ => true
  | _ => false

/-- No member step on the value of the nested program. -/
def unextended (_ rest : List Instruction) : Bool := !beginsWithMember rest

/-- No names in the nested program either. -/
def unnamed (program rest : List Instruction) : Bool :=
  !beginsWithMember rest && (allOccurrences program).isEmpty

theorem dotted_of_unextended {path : Text} {rest : List Instruction}
    (unextended : beginsWithMember rest = false) : dotted path rest = path := by
  match rest with
  | .member _ :: _ => cases unextended
  | [] | .literal _ :: _ | .unary _ :: _ | .binary _ :: _ | .ternary _ :: _ | .name _ :: _ | .target _ :: _
  | .call _ :: _ | .define _ :: _ | .nested _ :: _ | .suspended _ :: _ | .discard :: _ | .array _ :: _ => rfl

/-- What an open path comes to with the rest of the program, and the paths there. -/
def outstanding (pending : Option Text) (program : List Instruction) : List Text :=
  (pending.map fun path => dotted path program).toList ++ allOccurrences program

/-- Where the nested programs after an open path hold no names and are not extended, the paths are
collected as they occur. -/
theorem collectAllPaths_ordered (names : List Text) (pending : Option Text) (program : List Instruction)
    (guarded : allGuarded unnamed pending.isSome program = true) :
    collectAllPaths (names, pending) program = (outstanding pending program).foldl addName names := by
  match program with
  | [] => cases pending <;> rfl
  | .name word :: rest | .target word :: rest =>
      have after := collectAllPaths_ordered (addPending names pending) (some word) rest guarded
      rw [collectAllPaths, collectPath, after]
      cases pending <;> rfl
  | .member word :: rest =>
      cases pending with
      | none => exact collectAllPaths_ordered names none rest guarded
      | some path => exact collectAllPaths_ordered names (some (path ++ '.'.toNat :: word)) rest guarded
  | .nested inner :: rest =>
      obtain ⟨⟨admitted, within⟩, later⟩ := by
        simpa only [allGuarded, Instruction.guarded, Bool.and_eq_true] using guarded
      have inside := collectAllPaths_ordered names none inner within
      rw [collectAllPaths, collectPath, inside]
      cases pending with
      | none =>
          rw [collectAllPaths_ordered _ none rest later, ← List.foldl_append]
          rfl
      | some path =>
          obtain ⟨ended, bare⟩ : beginsWithMember rest = false ∧ allOccurrences inner = [] := by
            simpa [unnamed] using admitted
          rw [collectAllPaths_ordered _ (some path) rest later]
          simp [outstanding, allOccurrences, occurrences, bare, dotted, dotted_of_unextended ended]
  | .literal _ :: rest | .unary _ :: rest | .binary _ :: rest | .ternary _ :: rest | .call _ :: rest
  | .define _ :: rest | .suspended _ :: rest | .discard :: rest | .array _ :: rest =>
      have after := collectAllPaths_ordered (addPending names pending) none rest guarded
      cases pending <;> exact after

/-- Where the nested programs after an open path are not extended, the paths collected are those that
occur. -/
theorem mem_collectAllPaths (names : List Text) (pending : Option Text) (program : List Instruction)
    (guarded : allGuarded unextended pending.isSome program = true) (word : Text) :
    word ∈ collectAllPaths (names, pending) program ↔
      word ∈ names ∨ word ∈ outstanding pending program := by
  match program with
  | [] =>
      rw [collectAllPaths, mem_addPending]
      cases pending <;> exact Iff.rfl
  | .name known :: rest | .target known :: rest =>
      rw [collectAllPaths, collectPath, mem_collectAllPaths _ (some known) rest guarded, mem_addPending,
        or_assoc, ← List.mem_append]
      cases pending <;> exact Iff.rfl
  | .member step :: rest =>
      cases pending with
      | none => exact mem_collectAllPaths names none rest guarded word
      | some path => exact mem_collectAllPaths names (some (path ++ '.'.toNat :: step)) rest guarded word
  | .nested inner :: rest =>
      obtain ⟨⟨admitted, within⟩, later⟩ := by
        simpa only [allGuarded, Instruction.guarded, Bool.and_eq_true] using guarded
      rw [collectAllPaths, collectPath, mem_collectAllPaths _ pending rest later,
        mem_collectAllPaths names none inner within]
      cases pending with
      | none => simp [outstanding, allOccurrences, occurrences, or_assoc]
      | some path =>
          have ended : beginsWithMember rest = false := by simpa [unextended] using admitted
          simp [outstanding, allOccurrences, occurrences, dotted, dotted_of_unextended ended]
          tauto
  | .literal _ :: rest | .unary _ :: rest | .binary _ :: rest | .ternary _ :: rest | .call _ :: rest
  | .define _ :: rest | .suspended _ :: rest | .discard :: rest | .array _ :: rest =>
      have after := mem_collectAllPaths (addPending names pending) none rest guarded word
      rw [mem_addPending, or_assoc, ← List.mem_append] at after
      cases pending <;> exact after

/-- No path is collected twice. -/
theorem nodup_collectAllPaths (names : List Text) (pending : Option Text) (program : List Instruction)
    (distinct : names.Nodup) : (collectAllPaths (names, pending) program).Nodup := by
  have closed : (addPending names pending).Nodup := nodup_addPending distinct pending
  match program with
  | [] => exact closed
  | .name word :: rest | .target word :: rest =>
      rw [collectAllPaths, collectPath]
      exact nodup_collectAllPaths _ (some word) rest closed
  | .member word :: rest =>
      cases pending with
      | none => exact nodup_collectAllPaths names none rest distinct
      | some path => exact nodup_collectAllPaths names _ rest distinct
  | .nested inner :: rest =>
      have inside := nodup_collectAllPaths names none inner distinct
      rw [collectAllPaths, collectPath]
      exact nodup_collectAllPaths _ pending rest inside
  | .literal _ :: rest | .unary _ :: rest | .binary _ :: rest | .ternary _ :: rest | .call _ :: rest
  | .define _ :: rest | .suspended _ :: rest | .discard :: rest | .array _ :: rest =>
      have after := nodup_collectAllPaths (addPending names pending) none rest closed
      cases pending <;> exact after

end Instruction

namespace Program

/-- The paths of a program as they occur, nested programs read in place. -/
def occurrences (program : Program) : List Text := Instruction.allOccurrences program

/-- Whether no member step follows a nested program that stands after an open path. -/
def unextended (program : Program) : Bool := Instruction.allGuarded Instruction.unextended false program

/-- Whether, in addition, no such nested program holds a name. -/
def unnamed (program : Program) : Bool := Instruction.allGuarded Instruction.unnamed false program

/-- No path is listed twice. The list has the paths that occur, and no others, where no member step
follows a nested program that stands after an open path; where such nested programs hold no names either,
the paths stand as they first occur. -/
theorem paths_occurring (program : Program) :
    program.paths.Nodup ∧
      (program.unextended = true → ∀ path, path ∈ program.paths ↔ path ∈ program.occurrences) ∧
      (program.unnamed = true → program.paths = program.occurrences.eraseDups) := by
  refine ⟨Instruction.nodup_collectAllPaths [] none program List.nodup_nil, ?_, ?_⟩
  · intro unextended path
    have collected := Instruction.mem_collectAllPaths [] none program unextended path
    rw [List.mem_nil_iff, false_or] at collected
    exact collected
  · intro unnamed
    rw [paths, Instruction.collectAllPaths_ordered [] none program unnamed]
    exact foldl_addName program.occurrences

/-- A member step on the value of a call belongs to no path, and a sequence is read in place. -/
theorem paths_occurring_of_sum :
    ∃ term, parse (.standard {}) (Text.ofString "(f(2)).x + (m.a; b)") = .ok term ∧
      term.code.unextended = true ∧ Text.ofString "m.a" ∈ term.code.paths ∧ term.code.unnamed = true ∧
      term.code.paths = [Text.ofString "f", Text.ofString "m.a", Text.ofString "b"] := by
  obtain ⟨term, parsed, code⟩ := parse_code (by decide +kernel : (reading (.standard {})
    (Text.ofString "(f(2)).x + (m.a; b)")).comesTo [.name (Text.ofString "f"), .literal (.int 2), .call 1,
      .member (Text.ofString "x"), .nested [.name (Text.ofString "m"), .member (Text.ofString "a"), .discard,
      .name (Text.ofString "b")], .binary (Text.ofString "+")] = true)
  have unextended : term.code.unextended = true := by rw [code]; decide +kernel
  have unnamed : term.code.unnamed = true := by rw [code]; decide +kernel
  have occurring : term.code.occurrences = [Text.ofString "f", Text.ofString "m.a", Text.ofString "b"] := by
    rw [code]; decide +kernel
  have ⟨_, same, ordered⟩ := paths_occurring term.code
  refine ⟨term, parsed, unextended, (same unextended _).mpr ?_, unnamed, ?_⟩
  · rw [occurring]
    exact List.mem_cons_of_mem _ List.mem_cons_self
  · rw [ordered unnamed, occurring]
    decide +kernel

/-- A path stays open across a sequence, comes after the names in there, and takes the member step on
the value of the sequence. -/
theorem path_extended_by_sequence :
    ∃ term, parse (.standard {}) (Text.ofString "x + (a; b).c") = .ok term ∧
      term.code.occurrences = [Text.ofString "x", Text.ofString "a", Text.ofString "b"] ∧
      term.code.paths = [Text.ofString "a", Text.ofString "b", Text.ofString "x.c"] ∧
      term.code.paths ≠ term.code.occurrences.eraseDups := by
  obtain ⟨term, parsed, code⟩ := parse_code (by decide +kernel : (reading (.standard {})
    (Text.ofString "x + (a; b).c")).comesTo [.name (Text.ofString "x"), .nested [.name (Text.ofString "a"),
      .discard, .name (Text.ofString "b")], .member (Text.ofString "c"), .binary (Text.ofString "+")] = true)
  refine ⟨term, parsed, ?_⟩
  rw [code]
  decide +kernel

end Program

end Formula
