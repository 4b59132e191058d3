import Formula.Proofs.Determinism
import Formula.Proofs.Preservation

/-!
Simplification and the test of trust. What is callable is never worked out in advance, so it is still
tested when the simplified program runs; a known name is worked out without the test of reserved names.
-/

namespace Formula

open Machine

/-- The part of a mapping that simplification reads: the names that are bound to no callable. -/
def readable (values : Entries) : Entries :=
  values.filter fun entry =>
    match entry.1 with
    | .text name => (named values name).all (!·.isCallable)
    | _ => false

theorem named_filter (keep : Text → Bool) (entries : Entries) (name : Text) :
    named (entries.filter fun entry => match entry.1 with | .text word => keep word | _ => false) name =
      if keep name = true then named entries name else none := by
  induction entries with
  | nil => simp [named]
  | cons entry rest ih =>
      obtain ⟨key, value⟩ := entry
      rw [List.filter_cons, named_cons]
      cases key with
      | text word =>
          by_cases same : word = name
          · subst same
            cases kept : keep word <;> simp [kept, ih, named_cons, Value.spells]
          · cases kept : keep word <;> simp [kept, ih, named_cons, Value.spells, same]
      | _ => simp [ih, Value.spells]

theorem named_readable (values : Entries) (name : Text) :
    named (readable values) name = (named values name).filter (!·.isCallable) := by
  have kept := named_filter (fun word => (named values word).all (!·.isCallable)) values name
  rw [readable, kept]
  cases named values name with
  | none => simp
  | some value => cases callable : value.isCallable <;> simp [Option.filter, callable]

namespace Simplification

/-- What simplification learns from a mapping it learns from the readable part. -/
theorem learns_readable (depth dialect : Nat) (values : Entries) :
    Learns (perform depth) dialect values (knownFacts (readable values))
      fun state => (state.dialect dialect).Operates :=
  { learns_known depth dialect (readable values) with
    name := fun {state word value} _ found => by
      rw [known?, Heap.lookup_text, ← named_readable] at found
      exact found }

end Simplification

/-- A parsed program that binds no known name is modest. -/
theorem parse_modest {options : Options} {source : Text} {term : Term} {values : Entries}
    (parsed : parse (.standard options) source = .ok term)
    (unbound : ∀ name value, named values name = some value → .target name ∉ term.code.contents) :
    term.code.Modest values := by
  refine ⟨soundAll_iff.mpr (disciplined_iff.mp (parse_disciplined parsed)).2,
    fun instruction member => ?_⟩
  cases instruction with
  | literal value => exact parse_plain parsed value member
  | target word =>
      cases held : named values word with
      | none => exact held
      | some value => exact absurd member (unbound word value held)
  | _ => trivial

/-- A modest program and what folding makes of it are in the place of each other. -/
theorem Setting.Counterparts.of_folds {setting : Setting} {program result : Program}
    (folds : Folds (knownFacts setting.values) program result) (modest : program.Modest setting.values)
    (settled : settles program = true) : setting.Counterparts program result := by
  obtain ⟨shape, scanned, proper⟩ := settles_iff.mp settled
  have contents := folds.contents_modest modest setting.scalars scanned
  exact ⟨.of_folds folds, modest, ⟨folds.sound modest.sound, contents⟩, settled,
    settles_iff.mpr ⟨shape, folds.scanned scanned, proper⟩⟩

/-- A context with a callable of the host and a number. -/
def hostEntries : Entries :=
  [(.text (Text.ofString "g"), .host 0 (Text.ofString "g")), (.text (Text.ofString "x"), .int 5)]

def hostState : State := ⟨{ maps := #[hostEntries], hosts := 1 }, #[.standard {}], 0, 0⟩

end Formula
