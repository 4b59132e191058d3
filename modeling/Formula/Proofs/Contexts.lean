import Mathlib.Data.List.Induction
import Formula.Proofs.Matching

/-!
Contexts of plain data, and the ways into them: a name, and then from each value to one that it holds.
-/

namespace Formula

namespace Heap

/-- What a value holds at some index: an item, a key, or what is under a key. -/
def part? (heap : Heap) (value : Value) (index : Nat) : Option Value :=
  value.place?.bind fun place => (heap.held place)[index]?

/-- What a context holds under a name, some steps inside. -/
def at? (heap : Heap) (scope : Nat) (name : Text) (steps : List Nat) : Option Value :=
  (named (heap.entries scope) name).bind fun value => steps.foldlM heap.part? value

/-- What shows of a value by itself: a scalar, or the kind of a sequence or of a mapping and its size. -/
def face (heap : Heap) : Value → Value
  | .tuple place => .tuple (heap.sequence place).length
  | .list place => .list (heap.sequence place).length
  | .map place => .map (heap.entries place).length
  | .object place => .object (heap.entries place).length
  | value => value

/-- Whether a context holds plain data: all that it leads to is there, nothing in it may be called, no sequence
holds itself, only what may be a key is one, and nothing leads back to the context. -/
structure PlainContext (heap : Heap) (scope : Nat) : Prop where
  whole : ∀ place, heap.Leads place (.map scope) → place ∈ heap.places
  data : ∀ place, heap.Leads place (.map scope) → ∀ item ∈ heap.held place, item.isCallable = false
  founded : ∀ place, heap.Leads (.sequence place) (.map scope) → ∃ bound, Nested heap.elements bound (.list place)
  keys : ∀ place, heap.Leads (.map place) (.map scope) → ∀ entry ∈ heap.entries place, heap.Hashable entry.1
  apart : ∀ item ∈ heap.held (.map scope), ¬ heap.Leads (.map scope) item

/-- Whether besides no two ways into the context end at one mapping. -/
structure UnsharedContext (heap : Heap) (scope : Nat) : Prop extends heap.PlainContext scope where
  unshared : ∀ {name steps value other more same place}, heap.at? scope name steps = some value →
    heap.at? scope other more = some same → value.place? = some (.map place) → same.place? = some (.map place) →
      name = other ∧ steps = more

variable {heap : Heap} {scope : Nat}

theorem Leads.trans {goal place : Place} {value other : Value} (leads : heap.Leads place value)
    (there : other.place? = some place) (further : heap.Leads goal other) : heap.Leads goal value := by
  induction leads with
  | here here => exact further.congr (here.trans there.symm)
  | item here member _ ih => exact .item here member ih
  | key here member _ ih => exact .key here member ih
  | entry here member _ ih => exact .entry here member ih

/-- What leads to a place leads on to all that is led to from what is held there. -/
theorem Leads.onward {goal place : Place} {value item : Value} (leads : heap.Leads place value)
    (member : item ∈ heap.held place) (further : heap.Leads goal item) : heap.Leads goal value := by
  cases place with
  | sequence place => exact @Leads.trans _ _ _ _ (.list place) leads rfl (.item rfl member further)
  | map place =>
      refine @Leads.trans _ _ _ _ (.map place) leads rfl ?_
      rcases List.mem_append.mp member with key | under
      · obtain ⟨entry, among, rfl⟩ := List.mem_map.mp key
        exact .key rfl among further
      · obtain ⟨entry, among, rfl⟩ := List.mem_map.mp under
        exact .entry rfl among further

theorem mem_held_of_entry {place : Nat} {entry : Value × Value} (member : entry ∈ heap.entries place) :
    entry.1 ∈ heap.held (.map place) ∧ entry.2 ∈ heap.held (.map place) :=
  ⟨List.mem_append_left _ (List.mem_map_of_mem member), List.mem_append_right _ (List.mem_map_of_mem member)⟩

/-- A context leads to itself, and to where what it holds leads. -/
theorem Leads.held {goal : Place} (leads : heap.Leads goal (.map scope)) :
    goal = .map scope ∨ ∃ item ∈ heap.held (.map scope), heap.Leads goal item := by
  cases leads with
  | here here => exact .inl (Option.some.inj here).symm
  | item here => cases here
  | key here member leads =>
      cases here
      exact .inr ⟨_, (mem_held_of_entry member).1, leads⟩
  | entry here member leads =>
      cases here
      exact .inr ⟨_, (mem_held_of_entry member).2, leads⟩

theorem mem_held_of_named {name : Text} {value : Value} (found : named (heap.entries scope) name = some value) :
    value ∈ heap.held (.map scope) := by
  obtain ⟨entry, member, rfl⟩ := mem_of_named found
  exact (mem_held_of_entry member).2

theorem at?_snoc (heap : Heap) (scope : Nat) (name : Text) (steps : List Nat) (index : Nat) :
    heap.at? scope name (steps ++ [index]) = (heap.at? scope name steps).bind (heap.part? · index) := by
  rw [at?, at?, Option.bind_assoc]
  refine Option.bind_congr fun value _ => ?_
  rw [List.foldlM_append]
  simp

/-- What a way into a context ends at is held somewhere where the context leads. -/
theorem held_of_at? {name : Text} {steps : List Nat} {value : Value}
    (found : heap.at? scope name steps = some value) :
    ∃ place, heap.Leads place (.map scope) ∧ value ∈ heap.held place := by
  induction steps using List.reverseRecOn generalizing value with
  | nil =>
      obtain ⟨bound, named, same⟩ := Option.bind_eq_some_iff.mp found
      cases same
      exact ⟨.map scope, .here rfl, mem_held_of_named named⟩
  | append_singleton steps index ih =>
      rw [at?_snoc, Option.bind_eq_some_iff] at found
      obtain ⟨whole, earlier, part⟩ := found
      obtain ⟨place, here, found⟩ := Option.bind_eq_some_iff.mp part
      obtain ⟨outer, leads, member⟩ := ih earlier
      exact ⟨place, leads.onward member (.here here), List.mem_of_getElem? found⟩

theorem leads_of_at? {name : Text} {steps : List Nat} {value : Value} {place : Place}
    (found : heap.at? scope name steps = some value) (here : value.place? = some place) :
    heap.Leads place (.map scope) := by
  obtain ⟨outer, leads, member⟩ := held_of_at? found
  exact leads.onward member (.here here)

theorem size_of_face {one two : Heap} {value other : Value} (same : one.face value = two.face other) :
    (∀ here there, value.place? = some (.sequence here) → other.place? = some (.sequence there) →
      (one.sequence here).length = (two.sequence there).length) ∧
    ∀ here there, value.place? = some (.map here) → other.place? = some (.map there) →
      (one.entries here).length = (two.entries there).length := by
  constructor
  · rintro here there place placeTwo
    cases value <;> cases place <;> cases other <;> cases placeTwo <;> simp [face] at same <;> exact same
  · rintro here there place placeTwo
    cases value <;> cases place <;> cases other <;> cases placeTwo <;> simp [face] at same <;> exact same

/-- Where a value leads, some steps from it end. -/
theorem steps_of_leads {goal : Place} {value : Value} (leads : heap.Leads goal value) :
    ∃ steps : List Nat, ∀ other : Value, other.place? = value.place? →
      ∃ last, steps.foldlM heap.part? other = some last ∧ last.place? = some goal := by
  have onward {value item : Value} {place : Place} (here : value.place? = some place)
      (member : item ∈ heap.held place)
      (ih : ∃ steps : List Nat, ∀ other : Value, other.place? = item.place? →
        ∃ last, steps.foldlM heap.part? other = some last ∧ last.place? = some goal) :
      ∃ steps : List Nat, ∀ other : Value, other.place? = value.place? →
        ∃ last, steps.foldlM heap.part? other = some last ∧ last.place? = some goal := by
    obtain ⟨index, found⟩ := List.getElem?_of_mem member
    obtain ⟨steps, reach⟩ := ih
    refine ⟨index :: steps, fun other same => ?_⟩
    obtain ⟨last, came, there⟩ := reach item rfl
    refine ⟨last, ?_, there⟩
    have part : heap.part? other index = some item := by rw [part?, same, here]; exact found
    rw [List.foldlM_cons, part]
    exact came
  induction leads with
  | here here => exact ⟨[], fun other same => ⟨other, rfl, same.trans here⟩⟩
  | item here member _ ih => exact onward here member ih
  | key here member _ ih => exact onward here (mem_held_of_entry member).1 ih
  | entry here member _ ih => exact onward here (mem_held_of_entry member).2 ih

/-- A way into a context goes on with the steps from what it ends at. -/
theorem at?_append {name : Text} {steps more : List Nat} {value last : Value}
    (found : heap.at? scope name steps = some value) (reached : more.foldlM heap.part? value = some last) :
    heap.at? scope name (steps ++ more) = some last := by
  rw [at?] at found ⊢
  obtain ⟨root, bound, came⟩ := Option.bind_eq_some_iff.mp found
  rw [bound, Option.bind_some, List.foldlM_append, came]
  exact reached

/-- One way leads to one place. -/
theorem place_of_at? {name : Text} {steps : List Nat} {value same : Value} {here there : Place}
    (found : heap.at? scope name steps = some value) (again : heap.at? scope name steps = some same)
    (place : value.place? = some here) (other : same.place? = some there) : here = there := by
  rw [found] at again
  cases again
  rw [place] at other
  exact Option.some.inj other

namespace PlainContext

variable (plain : heap.PlainContext scope)

include plain

theorem inside : scope < heap.maps.size := map_mem_places_iff.mp (plain.whole _ (.here rfl))

/-- Whether a context is plain does not depend on functions. -/
theorem in_heap {other : Heap} (sequences : other.sequences = heap.sequences) (maps : other.maps = heap.maps) :
    other.PlainContext scope := by
  have leads {place : Place} {value : Value} (leads : other.Leads place value) : heap.Leads place value :=
    leads.in_heap sequences.symm maps.symm
  have held (place : Place) : other.held place = heap.held place := by
    cases place <;> simp only [Heap.held, sequence, entries, sequences, maps]
  have places : other.places = heap.places := by rw [Heap.places, Heap.places, sequences, maps]
  have elements : other.elements = heap.elements := by
    funext place
    cases place <;> simp only [Heap.elements, sequence, sequences]
  refine ⟨fun place inside => ?_, fun place inside => ?_, fun place inside => ?_, fun place inside => ?_,
    fun item member back => ?_⟩
  · exact places ▸ plain.whole place (leads inside)
  · exact held _ ▸ plain.data place (leads inside)
  · exact elements ▸ plain.founded place (leads inside)
  · rw [entries, maps]
    exact fun entry member => (plain.keys place (leads inside) entry member).congr sequences
  · exact plain.apart item (held _ ▸ member) (leads back)

/-- Nothing in the context leads back to it. -/
theorem not_leads_back {place : Place} {item : Value} (leads : heap.Leads place (.map scope))
    (member : item ∈ heap.held place) : ¬ heap.Leads (.map scope) item := by
  intro back
  rcases leads.held with rfl | ⟨first, held, leads⟩
  · exact plain.apart item member back
  · exact plain.apart first held (leads.onward member back)

theorem sound_sequence {place : Nat} (leads : heap.Leads (.sequence place) (.map scope)) :
    place < heap.sequences.size ∧ ∃ bound, Nested heap.elements bound (.list place) :=
  ⟨sequence_mem_places_iff.mp (plain.whole _ leads), plain.founded place leads⟩

end PlainContext

/-- A sequence that two ways lead to leads to no mapping. -/
theorem UnsharedContext.mapless (plain : heap.UnsharedContext scope) {name other : Text} {steps more : List Nat}
    {value same : Value} {place : Nat} (found : heap.at? scope name steps = some value)
    (again : heap.at? scope other more = some same) (here : value.place? = some (.sequence place))
    (there : same.place? = some (.sequence place)) (apart : ¬(name = other ∧ steps = more)) :
    heap.Mapless place := by
  intro goal leads
  obtain ⟨onward, reach⟩ := steps_of_leads leads
  obtain ⟨last, came, ends⟩ := reach value here
  obtain ⟨lastTwo, cameTwo, endsTwo⟩ := reach same there
  obtain ⟨equal, ways⟩ := plain.unshared (at?_append found came) (at?_append again cameTwo) ends endsTwo
  exact apart ⟨equal, List.append_cancel_right ways⟩

section

variable (scalars : ∀ item ∈ heap.held (.map scope), item.isScalar = true)

include scalars

/-- Into a context of scalars no way leads further than its names. -/
theorem at?_scalars {name : Text} {steps : List Nat} {value : Value}
    (found : heap.at? scope name steps = some value) :
    steps = [] ∧ named (heap.entries scope) name = some value ∧ value.isScalar = true := by
  obtain ⟨root, bound, came⟩ := Option.bind_eq_some_iff.mp found
  have scalar := scalars root (mem_held_of_named bound)
  cases steps with
  | nil =>
      cases came
      exact ⟨rfl, bound, scalar⟩
  | cons index steps =>
      have placeless : root.place? = none := by cases root <;> first | rfl | cases scalar
      rw [List.foldlM_cons, part?, placeless] at came
      cases came

/-- A context of scalars leads to itself only. -/
theorem eq_of_leads_scalars {place : Place} (leads : heap.Leads place (.map scope)) : place = .map scope := by
  refine leads.held.resolve_right ?_
  rintro ⟨item, member, leads⟩
  have scalar := scalars item member
  exact not_leads_of_placeless (by cases item <;> first | rfl | cases scalar) leads

/-- Two contexts of scalars share nothing. -/
theorem spares_of_scalars {other : Nat} (scalarsTwo : ∀ item ∈ heap.held (.map other), item.isScalar = true)
    (inside : scope < heap.maps.size) (apart : scope ≠ other) :
    heap.Spares (heap.Leads · (.map other)) (.map scope) := by
  intro place leads
  obtain rfl := eq_of_leads_scalars scalars leads
  refine ⟨map_mem_places_iff.mpr inside, fun shared => apart ?_⟩
  exact Place.map.inj (eq_of_leads_scalars scalarsTwo shared)

theorem unsharedContext_of_scalars (inside : scope < heap.maps.size) : heap.UnsharedContext scope := by
  have placeless {value : Value} (scalar : value.isScalar = true) :
      value.place? = none ∧ value.isCallable = false := by
    cases value <;> first | exact ⟨rfl, rfl⟩ | cases scalar
  have stays {item : Value} {goal : Place} (member : item ∈ heap.held (.map scope)) : ¬ heap.Leads goal item :=
    not_leads_of_placeless (placeless (scalars item member)).1
  have only {place : Place} (leads : heap.Leads place (.map scope)) : place = .map scope :=
    eq_of_leads_scalars scalars leads
  refine ⟨⟨fun place leads => ?_, fun place leads item member => ?_, fun place leads => ?_,
    fun place leads entry member => ?_, fun item member => stays member⟩, fun found _ here => ?_⟩
  · rw [only leads]
    exact map_mem_places_iff.mpr inside
  · rw [only leads] at member
    exact (placeless (scalars item member)).2
  · cases only leads
  · cases only leads
    exact hashable_scalar (scalars _ (mem_held_of_entry member).1)
  · rw [(placeless (at?_scalars scalars found).2.2).1] at here
    cases here

end

/-- Contexts of scalars that bind a name alike show the same under it. -/
theorem alike_of_scalars {one two : Heap} {left right : Nat}
    (scalars : ∀ item ∈ one.held (.map left), item.isScalar = true)
    (scalarsTwo : ∀ item ∈ two.held (.map right), item.isScalar = true) {name : Text}
    (same : named (one.entries left) name = named (two.entries right) name) (steps : List Nat) :
    (one.at? left name steps).map one.face = (two.at? right name steps).map two.face := by
  have bare {heap : Heap} {value : Value} (scalar : value.isScalar = true) : heap.face value = value := by
    cases value <;> first | rfl | cases scalar
  cases found : one.at? left name steps with
  | some value =>
      obtain ⟨rfl, bound, scalar⟩ := at?_scalars scalars found
      have foundTwo : two.at? right name [] = some value := by
        rw [at?, ← same, bound]
        rfl
      rw [foundTwo, Option.map_some, Option.map_some, bare scalar, bare scalar]
  | none =>
      cases foundTwo : two.at? right name steps with
      | none => rfl
      | some value =>
          obtain ⟨rfl, bound, -⟩ := at?_scalars scalarsTwo foundTwo
          rw [at?, same, bound] at found
          cases found

end Heap

end Formula
