import Formula.Proofs.Leading

/-!
Data that is the same in two heaps, whatever its places there: the places of the one heap are matched with
those of the other.
-/

namespace Formula

namespace Heap

/-- A sequence that leads to no mapping. -/
def Mapless (heap : Heap) (place : Nat) : Prop := ∀ goal, ¬ heap.Leads (.map goal) (.list place)

/-- Places whose data is there: sequences that do not hold themselves, and mappings with keys that may be
keys. -/
structure Sound (heap : Heap) (sequences maps : Nat → Prop) : Prop where
  inside : ∀ place, sequences place → place < heap.sequences.size
  insideMaps : ∀ place, maps place → place < heap.maps.size
  founded : ∀ place, sequences place → ∃ bound, Nested heap.elements bound (.list place)
  keys : ∀ place, maps place → ∀ entry ∈ heap.entries place, heap.Hashable entry.1

theorem Sound.mono {heap : Heap} {sequences maps fewer fewerMaps : Nat → Prop} (sound : heap.Sound sequences maps)
    (among : ∀ place, fewer place → sequences place) (amongMaps : ∀ place, fewerMaps place → maps place) :
    heap.Sound fewer fewerMaps where
  inside place has := sound.inside place (among place has)
  insideMaps place has := sound.insideMaps place (amongMaps place has)
  founded place has := sound.founded place (among place has)
  keys place has := sound.keys place (amongMaps place has)

/-- What is sound does not depend on functions. -/
theorem Sound.withFunctions {heap : Heap} {places maps : Nat → Prop} (sound : heap.Sound places maps)
    (functions : Array DefinedFunction) : (heap.withFunctions functions).Sound places maps where
  inside := sound.inside
  insideMaps := sound.insideMaps
  founded place has := by
    have elements : (heap.withFunctions functions).elements = heap.elements := by
      funext place
      cases place <;> rfl
    exact elements ▸ sound.founded place has
  keys place has entry member := @Hashable.congr heap (heap.withFunctions functions) rfl _
    (sound.keys place has entry member)

theorem Mapless.withFunctions {heap : Heap} {place : Nat} (mapless : heap.Mapless place)
    (functions : Array DefinedFunction) : (heap.withFunctions functions).Mapless place :=
  fun goal leads => mapless goal (@Leads.in_heap (heap.withFunctions functions) _ _ heap rfl rfl leads)

/-- One and the same function, up to its dialect and the scope that it was defined in. -/
inductive SameFunction (one two : Heap) : Value → Value → Prop
  | builtin (function : Builtin) : SameFunction one two (.builtin function) (.builtin function)
  | host (serial : Nat) (name : Text) : SameFunction one two (.host serial name) (.host serial name)
  | defined {here there : Nat}
      (same : (two.function? there).map (fun function => (function.name, function.parameters, function.body)) =
        (one.function? here).map fun function => (function.name, function.parameters, function.body)) :
      SameFunction one two (.defined here) (.defined there)

end Heap

/-- Which places of two heaps, and which callables, are matched. -/
structure Matching where
  sequences : Nat → Nat → Prop
  maps : Nat → Nat → Prop
  callables : Value → Value → Prop

namespace Matching

variable (matching : Matching)

/-- Values that are the same: scalars, down to the sign of zero, or what stands at matched places. -/
inductive Relates : Value → Value → Prop
  | scalar {value : Value} (scalar : value.isScalar = true) : Relates value value
  | tuple {here there : Nat} (matched : matching.sequences here there) : Relates (.tuple here) (.tuple there)
  | list {here there : Nat} (matched : matching.sequences here there) : Relates (.list here) (.list there)
  | map {here there : Nat} (matched : matching.maps here there) : Relates (.map here) (.map there)
  | object {here there : Nat} (matched : matching.maps here there) : Relates (.object here) (.object there)
  | callable {left right : Value} (matched : matching.callables left right) : Relates left right

/-- Failures that are the same, but for the values that they name. -/
inductive Fails : Failure → Failure → Prop
  | bare {failure : Failure} (bare : failure.isBare = true) : Fails failure failure
  | notFunction {left right : Value} (related : matching.Relates left right) :
      Fails (.evaluation (.notFunction left)) (.evaluation (.notFunction right))
  | memberOf {left right target other : Value} (names : matching.Relates left right)
      (targets : matching.Relates target other) :
      Fails (.evaluation (.memberOf left target)) (.evaluation (.memberOf right other))

/-- Heaps that hold the same at matched places. A mapping is matched with one mapping, for it may change; so
is a sequence that leads to one, for its text may come to show it inside itself. -/
structure Between (one two : Heap) : Prop where
  items : ∀ here there, matching.sequences here there →
    List.Forall₂ matching.Relates (one.sequence here) (two.sequence there)
  entries : ∀ here there, matching.maps here there →
    List.Forall₂ (fun left right => matching.Relates left.1 right.1 ∧ matching.Relates left.2 right.2)
      (one.entries here) (two.entries there)
  callables : ∀ left right, matching.callables left right → one.SameFunction two left right
  left : one.Sound (fun here => ∃ there, matching.sequences here there) fun here =>
    ∃ there, matching.maps here there
  right : two.Sound (fun there => ∃ here, matching.sequences here there) fun there =>
    ∃ here, matching.maps here there
  mapsLeft : ∀ here other there, matching.maps here there → matching.maps other there → here = other
  mapsRight : ∀ here there other, matching.maps here there → matching.maps here other → there = other
  sequencesLeft : ∀ here other there, matching.sequences here there → matching.sequences other there →
    here = other ∨ two.Mapless there
  sequencesRight : ∀ here there other, matching.sequences here there → matching.sequences here other →
    there = other ∨ one.Mapless here

/-- Two contexts that agree on some names: each is bound in none of them, or to values that are the same in
both. The contexts themselves are no part of these values. -/
structure Agrees (names : Text → Prop) (left right : Nat) (one two : Heap) : Prop where
  between : matching.Between one two
  inside : left < one.maps.size
  insideTwo : right < two.maps.size
  apart : ∀ there, ¬ matching.maps left there
  apartTwo : ∀ here, ¬ matching.maps here right
  bound : ∀ name, names name → Option.Rel matching.Relates (named (one.entries left) name)
    (named (two.entries right) name)

/-- What two evaluations come to in contexts that agree: none comes to an end, or both do, with the same value
or the same failure, and the contexts still agree. -/
inductive Ends (names : Text → Prop) (left right : Nat) :
    Option (Except Failure Value × State) → Option (Except Failure Value × State) → Prop
  | spent : Ends names left right none none
  | ok {matching : Matching} {value other : Value} {one two : State}
      (agrees : matching.Agrees names left right one.heap two.heap) (related : matching.Relates value other) :
      Ends names left right (some (.ok value, one)) (some (.ok other, two))
  | error {matching : Matching} {failure other : Failure} {one two : State}
      (agrees : matching.Agrees names left right one.heap two.heap) (fails : matching.Fails failure other) :
      Ends names left right (some (.error failure, one)) (some (.error other, two))

end Matching

end Formula
