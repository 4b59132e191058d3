import Formula.Proofs.Pairing
import Formula.Proofs.Reflection

/-!
What values lead to: the sequences and mappings that they consist of, at any depth. Two heaps show the same
value if they agree on all of it.
-/

namespace Formula

namespace Heap

/-- A value that consists of what is at a place, directly or at some depth. -/
inductive Leads (heap : Heap) (goal : Place) : Value → Prop
  | here {value : Value} (here : value.place? = some goal) : Leads heap goal value
  | item {value item : Value} {place : Nat} (here : value.place? = some (.sequence place))
      (member : item ∈ heap.sequence place) (leads : Leads heap goal item) : Leads heap goal value
  | key {value : Value} {entry : Value × Value} {place : Nat} (here : value.place? = some (.map place))
      (member : entry ∈ heap.entries place) (leads : Leads heap goal entry.1) : Leads heap goal value
  | entry {value : Value} {entry : Value × Value} {place : Nat} (here : value.place? = some (.map place))
      (member : entry ∈ heap.entries place) (leads : Leads heap goal entry.2) : Leads heap goal value

variable {heap : Heap} {goal : Place} {value : Value}

theorem not_leads_of_placeless (placeless : value.place? = none) : ¬ heap.Leads goal value := by
  intro leads
  cases leads <;> (rename_i here; rw [placeless] at here; cases here)

/-- Where a value leads depends on its place only. -/
theorem Leads.congr {other : Value} (same : other.place? = value.place?) (leads : heap.Leads goal value) :
    heap.Leads goal other := by
  cases leads with
  | here here => exact .here (same.trans here)
  | item here member leads => exact .item (same.trans here) member leads
  | key here member leads => exact .key (same.trans here) member leads
  | entry here member leads => exact .entry (same.trans here) member leads

/-- Where a value leads depends on the data of the heap only. -/
theorem Leads.in_heap {other : Heap} (sequences : other.sequences = heap.sequences)
    (maps : other.maps = heap.maps) (leads : heap.Leads goal value) : other.Leads goal value := by
  induction leads with
  | here here => exact .here here
  | item here member _ ih =>
      refine .item here ?_ ih
      rwa [sequence, sequences]
  | key here member _ ih =>
      refine .key here ?_ ih
      rwa [entries, maps]
  | entry here member _ ih =>
      refine .entry here ?_ ih
      rwa [entries, maps]

/-- A value whose parts are all there, at any depth, and which some places are no part of. -/
def Spares (heap : Heap) (avoid : Place → Prop) (value : Value) : Prop :=
  ∀ place, heap.Leads place value → place ∈ heap.places ∧ ¬ avoid place

namespace Spares

variable {avoid : Place → Prop} (spares : heap.Spares avoid value)

include spares

theorem item {item : Value} {place : Nat} (here : value.place? = some (.sequence place))
    (member : item ∈ heap.sequence place) : heap.Spares avoid item :=
  fun goal leads => spares goal (.item here member leads)

theorem entry {entry : Value × Value} {place : Nat} (here : value.place? = some (.map place))
    (member : entry ∈ heap.entries place) : heap.Spares avoid entry.1 ∧ heap.Spares avoid entry.2 :=
  ⟨fun goal leads => spares goal (.key here member leads),
    fun goal leads => spares goal (.entry here member leads)⟩

theorem congr {other : Value} (same : value.place? = other.place?) : heap.Spares avoid other :=
  fun place leads => spares place (leads.congr same)

theorem in_heap {other : Heap} (sequences : other.sequences = heap.sequences)
    (maps : other.maps = heap.maps) : other.Spares avoid value := by
  intro place leads
  have places : other.places = heap.places := by rw [Heap.places, Heap.places, sequences, maps]
  rw [places]
  exact spares place (leads.in_heap sequences.symm maps.symm)

end Spares

theorem spares_of_placeless {avoid : Place → Prop} (placeless : value.place? = none) :
    heap.Spares avoid value :=
  fun _ leads => (not_leads_of_placeless placeless leads).elim

theorem spares_scalar {avoid : Place → Prop} (scalar : value.isScalar = true) : heap.Spares avoid value :=
  spares_of_placeless (by cases value <;> first | rfl | cases scalar)

theorem sequence_mem_places_iff {place : Nat} :
    Place.sequence place ∈ heap.places ↔ place < heap.sequences.size := by
  simp [places]

theorem map_mem_places_iff {place : Nat} : Place.map place ∈ heap.places ↔ place < heap.maps.size := by
  simp [places]

/-- Two heaps of which the second shows in moved places all that a value of the first leads to. -/
structure Shows (moves : Renaming) (one two : Heap) (value : Value) : Prop where
  sequences : ∀ place, one.Leads (.sequence place) value →
    two.sequence (moves.sequences.place place) = (one.sequence place).map (·.move moves)
  maps : ∀ place, one.Leads (.map place) value →
    two.entries (moves.maps.place place) = (one.entries place).move moves

/-- Two heaps that hold the same in all places to which a value leads. -/
structure Shares (one two : Heap) (value : Value) : Prop where
  sequences : ∀ place, one.Leads (.sequence place) value → two.sequence place = one.sequence place
  maps : ∀ place, one.Leads (.map place) value → two.entries place = one.entries place

/-- What two heaps share does not depend on their functions. -/
theorem Shares.withFunctions {one two : Heap} (shares : one.Shares two value)
    (left right : Array DefinedFunction) : (one.withFunctions left).Shares (two.withFunctions right) value where
  sequences place leads := shares.sequences place (@Leads.in_heap (one.withFunctions left) _ _ one rfl rfl leads)
  maps place leads := shares.maps place (@Leads.in_heap (one.withFunctions left) _ _ one rfl rfl leads)

end Heap

/-- What two runs in one context have left, when both came to an outcome: the context holds the same, what it
or the outcome leads to is the same, and functions differ in their bodies only. -/
structure State.Agrees (scope : Nat) (outcome : Except Failure Value) (one two : State) : Prop where
  entries : two.heap.entries scope = one.heap.entries scope
  bound : ∀ name value, named (one.heap.entries scope) name = some value → one.heap.Shares two.heap value
  value : ∀ value, outcome = .ok value → one.heap.Shares two.heap value
  signatures : two.heap.functions.map (·.signature) = one.heap.functions.map (·.signature)

namespace Mirror.World

open Heap (Leads)

variable {mirror : Mirror} {world : mirror.World} {one two : Heap}

/-- Places that values which are known may have. -/
def HasPlace (world : mirror.World) : Heap.Place → Prop
  | .sequence place => world.HasSequence place
  | .map place => mirror.maps place

/-- A value that is known leads to what is known. -/
theorem Reflects.hasPlace_of_leads (reflects : world.Reflects one two) {value : Value} {goal : Heap.Place}
    (leads : one.Leads goal value) (known : world.Knows value) : world.HasPlace goal := by
  induction leads with
  | here here =>
      cases goal with
      | sequence place => exact hasSequence_of_place? known here
      | map place => exact maps_of_place? known here
  | item here member _ ih => exact ih (reflects.items _ (hasSequence_of_place? known here) _ member)
  | key here member _ ih => exact ih (reflects.entries _ (maps_of_place? known here) _ member).1
  | entry here member _ ih => exact ih (reflects.entries _ (maps_of_place? known here) _ member).2

/-- The second heap shows whatever is known. -/
theorem Reflects.shows (reflects : world.Reflects one two) {value : Value} (known : world.Knows value) :
    one.Shows mirror.moves two value where
  sequences place leads := reflects.sequences place (reflects.hasPlace_of_leads leads known)
  maps place leads := reflects.maps place (reflects.hasPlace_of_leads leads known)

end Mirror.World

end Formula
