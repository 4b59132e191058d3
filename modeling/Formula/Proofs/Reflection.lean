import Formula.Proofs.Mirror

/-!
What changes two heaps that reflect each other: new sequences and scopes, elements, bindings. Done on both
sides, each of these leaves heaps that reflect each other.
-/

namespace Formula

namespace Heap

theorem entries_push {heap : Heap} (entries : Entries) (place : Nat) :
    (heap.addMap entries).2.entries place =
      if place = heap.maps.size then entries else heap.entries place := by
  simp only [addMap, Heap.entries, Array.getD_eq_getD_getElem?, Array.getElem?_push]
  split <;> rfl

/-- A binding brings in no key but its own. -/
theorem key_of_mem_bind {heap : Heap} {key value : Value} {entries : Entries} {entry : Value × Value}
    (member : entry ∈ heap.bind key value entries) :
    entry.1 = key ∨ ∃ old ∈ entries, old.1 = entry.1 := by
  induction entries with
  | nil =>
      rw [bind, List.mem_singleton] at member
      exact .inl (by rw [member])
  | cons known rest ih =>
      obtain ⟨first, old⟩ := known
      simp only [bind] at member
      split at member
      · rcases List.mem_cons.mp member with rfl | later
        · exact .inr ⟨_, List.mem_cons_self, rfl⟩
        · exact .inr ⟨entry, List.mem_cons_of_mem _ later, rfl⟩
      · rcases List.mem_cons.mp member with rfl | later
        · exact .inr ⟨_, List.mem_cons_self, rfl⟩
        · refine (ih later).imp_right fun held => ?_
          obtain ⟨earlier, among, same⟩ := held
          exact ⟨earlier, List.mem_cons_of_mem _ among, same⟩

end Heap

namespace Mirror

variable {mirror : Mirror}

/-- Binding a name on moved entries. -/
theorem bind_move (one two : Heap) (name : Text) (value : Value) (entries : Entries) :
    two.bind (.text name) (value.move mirror.moves) (entries.move mirror.moves) =
      (one.bind (.text name) value entries).move mirror.moves := by
  induction entries with
  | nil => rfl
  | cons entry rest ih =>
      obtain ⟨key, old⟩ := entry
      simp only [Entries.move, List.map_cons, Heap.bind, Heap.equal_text, Value.spells_move] at ih ⊢
      split
      · rfl
      · rw [ih, List.map_cons]

namespace World

variable (world : mirror.World)

def addSequence : mirror.World :=
  { world with
    sequences := world.sequences + 1
    sequences_based := Nat.le_succ_of_le world.sequences_based }

def addScope (veil : Bool) : mirror.World :=
  { world with
    maps := world.maps + 1
    veiled := fun scope => if scope = world.maps then veil else world.veiled scope
    maps_based := Nat.le_succ_of_le world.maps_based
    unveiled := fun scope map => by
      have old := mirror.maps_old scope (.inl map)
      rw [if_neg (Nat.ne_of_lt (Nat.lt_of_lt_of_le old world.maps_based))]
      exact world.unveiled scope map }

theorem reaches_addSequence : world.Reaches world.addSequence :=
  ⟨Nat.le_succ _, Nat.le_refl _, fun _ _ => rfl⟩

theorem reaches_addScope (veil : Bool) : world.Reaches (world.addScope veil) :=
  ⟨Nat.le_refl _, Nat.le_succ _, fun _ below => if_neg (Nat.ne_of_lt below)⟩

theorem addScope_veiled (veil : Bool) : (world.addScope veil).veiled world.maps = veil := if_pos rfl

theorem addScope_hides (veil : Bool) : (world.addScope veil).Hides world.maps :=
  .inr ⟨world.maps_based, Nat.lt_succ_self _⟩

theorem addSequence_hasSequence : world.addSequence.HasSequence world.sequences :=
  .inr ⟨world.sequences_based, Nat.lt_succ_self _⟩

variable {world}

theorem hasSequence_of_addSequence {place : Nat} (has : world.addSequence.HasSequence place)
    (other : place ≠ world.sequences) : world.HasSequence place := by
  refine has.imp_right fun new => ⟨new.1, ?_⟩
  have below : place < world.sequences + 1 := new.2
  omega

theorem hides_of_addScope {veil : Bool} {scope : Nat} (hides : (world.addScope veil).Hides scope)
    (other : scope ≠ world.maps) : world.Hides scope := by
  refine hides.imp_right fun new => ⟨new.1, ?_⟩
  have below : scope < world.maps + 1 := new.2
  omega

namespace Alike

variable {veiled : Bool} {left right : Entries}

/-- Scopes are still alike when a name that may be bound is bound on both sides. -/
theorem bind (alike : world.Alike veiled left right) (one two : Heap) {word : Text} {value : Value}
    (free : mirror.Binds veiled word) (known : world.Knows value) :
    world.Alike veiled (one.bind (.text word) value left)
      (two.bind (.text word) (value.move mirror.moves) right) where
  same name shares := by
    by_cases here : word = name
    · subst here
      rw [one.named_bind_self, two.named_bind_self]
      rfl
    · rw [one.named_bind here, two.named_bind here, alike.same name shares]
  known name found shares held := by
    by_cases here : word = name
    · subst here
      rw [one.named_bind_self] at held
      cases held
      exact known
    · rw [one.named_bind here] at held
      exact alike.known name found shares held
  besides under := by rw [two.besides_bind (free under), alike.besides under]
  exact exact := by rw [alike.exact exact, bind_move one]

/-- Scopes are still alike when arguments are laid over them on both sides. -/
theorem overlay (alike : world.Alike veiled left right) (one two : Heap) {parameters : List Text}
    {arguments : List Value} (free : ∀ parameter ∈ parameters, mirror.Binds veiled parameter)
    (known : ∀ argument ∈ arguments, world.Knows argument) :
    ∃ entries others,
      Machine.overlay one (parameters.map .text) arguments left = .ok entries ∧
      Machine.overlay two (parameters.map .text) (arguments.map (·.move mirror.moves)) right = .ok others ∧
        world.Alike veiled entries others := by
  induction parameters generalizing arguments left right with
  | nil => exact ⟨left, right, rfl, rfl, alike⟩
  | cons parameter parameters ih =>
      cases arguments with
      | nil => exact ⟨left, right, rfl, rfl, alike⟩
      | cons argument arguments =>
          rw [List.forall_mem_cons] at free known
          exact ih (alike.bind one two free.1 known.1) free.2 known.2

end Alike

namespace Reflects

variable {one two : Heap} (reflects : world.Reflects one two)

include reflects

theorem place_sequences : mirror.moves.sequences.place one.sequences.size = two.sequences.size := by
  rw [reflects.sizeSequences, reflects.sizeSequencesTwo]

theorem place_maps : mirror.moves.maps.place one.maps.size = two.maps.size := by
  rw [reflects.sizeMaps, reflects.sizeMapsTwo]

/-- Where a known sequence is, and where a scope is. -/
theorem sequence_inside {place : Nat} (has : world.HasSequence place) :
    place < one.sequences.size ∧ mirror.moves.sequences.place place < two.sequences.size := by
  rw [← reflects.place_sequences, reflects.sizeSequences]
  exact ⟨has.below, has.place_below⟩

theorem scope_inside {scope : Nat} (has : world.HasScope scope) :
    scope < one.maps.size ∧ mirror.moves.maps.place scope < two.maps.size := by
  rw [← reflects.place_maps, reflects.sizeMaps]
  exact ⟨has.below, has.place_below⟩

/-- A new sequence of known items. -/
theorem addSequence {items : List Value} (inside : ∀ item ∈ items, world.Knows item) :
    world.addSequence.Reflects (one.addSequence items).2
      (two.addSequence (items.map (·.move mirror.moves))).2 where
  sizeSequences := by simp [Heap.addSequence, World.addSequence, reflects.sizeSequences]
  sizeSequencesTwo := by
    simp only [Heap.addSequence, World.addSequence, Array.size_push, reflects.sizeSequencesTwo]
    exact (Shift.place_succ world.sequences_based).symm
  sizeMaps := reflects.sizeMaps
  sizeMapsTwo := reflects.sizeMapsTwo
  sequences place has := by
    rw [Heap.sequence_push, Heap.sequence_push]
    by_cases new : place = one.sequences.size
    · rw [if_pos new, if_pos (new ▸ reflects.place_sequences)]
    · have old := hasSequence_of_addSequence has (reflects.sizeSequences ▸ new)
      rw [if_neg new, if_neg (Nat.ne_of_lt (reflects.sequence_inside old).2)]
      exact reflects.sequences place old
  items place has item member := by
    rw [Heap.sequence_push] at member
    split at member
    · exact (inside item member).later world.reaches_addSequence
    · rename_i new
      exact (reflects.items place (hasSequence_of_addSequence has (reflects.sizeSequences ▸ new))
        item member).later world.reaches_addSequence
  maps := reflects.maps
  entries place map entry member :=
    (reflects.entries place map entry member).imp (·.later world.reaches_addSequence)
      (·.later world.reaches_addSequence)
  scopes scope hides := (reflects.scopes scope hides).later world.reaches_addSequence
  bare place bare item member := by
    have old := (reflects.sequence_inside (.inl (mirror.bare_known place bare))).1
    rw [Heap.sequence_push, if_neg (Nat.ne_of_lt old)] at member
    exact reflects.bare place bare item member
  flat := by
    refine reflects.flat.imp_right ?_
    rintro ⟨flat, keys⟩
    refine ⟨fun place has => ?_, fun place map entry member =>
      reflects.hashable_push (reflects.entries place map entry member).1 (keys place map entry member)⟩
    by_cases new : place = world.sequences
    · refine ⟨one.depth + 1, fun found here item member => ?_⟩
      cases here
      have member : item ∈ items := by
        rwa [Heap.elements, Heap.sequence_push, if_pos (reflects.sizeSequences ▸ new)] at member
      obtain ⟨bound, nested⟩ := founded flat (inside item member)
      exact reflects.nested_push (inside item member) (nested.within Heap.elements_mem_places)
    · have known := hasSequence_of_addSequence has new
      obtain ⟨bound, nested⟩ := flat place known
      exact ⟨bound, reflects.nested_push (show world.Knows (.list place) from known) nested⟩
  keptSequences place old hidden := by
    have other : place ≠ one.sequences.size := by
      rw [reflects.sizeSequences]
      exact Nat.ne_of_lt (Nat.lt_of_lt_of_le old world.sequences_based)
    rw [Heap.sequence_push, if_neg other]
    exact reflects.keptSequences place old hidden
  keptMaps := reflects.keptMaps

/-- Other elements in a sequence. It may come to hold itself, so nothing must be moved. -/
theorem setSequence (still : mirror.still) {changed : Nat} (has : world.HasSequence changed)
    {items : List Value} (inside : ∀ item ∈ items, world.Knows item) :
    world.Reflects (one.setSequence changed items)
      (two.setSequence (mirror.moves.sequences.place changed) (items.map (·.move mirror.moves))) where
  sizeSequences := by simp [Heap.setSequence, reflects.sizeSequences]
  sizeSequencesTwo := by simp [Heap.setSequence, reflects.sizeSequencesTwo]
  sizeMaps := reflects.sizeMaps
  sizeMapsTwo := reflects.sizeMapsTwo
  sequences place known := by
    obtain ⟨bound, boundTwo⟩ := reflects.sequence_inside has
    have stays (place : Nat) : mirror.moves.sequences.place place = place :=
      Value.list.inj ((mirror.steady still).1 (.list place))
    rw [Heap.sequence_setSequence, Heap.sequence_setSequence]
    by_cases here : place = changed
    · rw [if_pos ⟨congrArg _ here, boundTwo⟩, if_pos ⟨here, bound⟩]
    · rw [if_neg fun same => here ((stays place).symm.trans (same.1.trans (stays changed))),
        if_neg (here ·.1)]
      exact reflects.sequences place known
  items place known item member := by
    rw [Heap.sequence_setSequence] at member
    split at member
    · exact inside item member
    · exact reflects.items place known item member
  maps := reflects.maps
  entries := reflects.entries
  scopes := reflects.scopes
  bare place bare := ((mirror.steady still).2.2 place bare).elim
  flat := .inl still
  keptSequences place old hidden := by
    have other : place ≠ changed := by
      rintro rfl
      exact has.elim hidden fun new => Nat.not_lt.mpr new.1 old
    rw [Heap.sequence_setSequence, if_neg (other ·.1)]
    exact reflects.keptSequences place old hidden
  keptMaps := reflects.keptMaps

/-- Other entries in a mapping that may be a value. -/
theorem setEntries {changed : Nat} (map : mirror.maps changed) {entries : Entries}
    (inside : ∀ entry ∈ entries, world.Knows entry.1 ∧ world.Knows entry.2)
    (hashable : mirror.still ∨ ∀ entry ∈ entries, one.Hashable entry.1) :
    world.Reflects (one.setEntries changed entries)
      (two.setEntries (mirror.moves.maps.place changed) (entries.move mirror.moves)) where
  sizeSequences := reflects.sizeSequences
  sizeSequencesTwo := reflects.sizeSequencesTwo
  sizeMaps := by simp [Heap.setEntries, reflects.sizeMaps]
  sizeMapsTwo := by simp [Heap.setEntries, reflects.sizeMapsTwo]
  sequences := reflects.sequences
  items := reflects.items
  maps place known := by
    have has : world.HasScope changed := .inl map
    obtain ⟨bound, boundTwo⟩ := reflects.scope_inside has
    rw [Heap.entries_setEntries, Heap.entries_setEntries]
    by_cases here : place = changed
    · rw [if_pos ⟨congrArg _ here, boundTwo⟩, if_pos ⟨here, bound⟩]
    · have hasPlace : world.HasScope place := .inl known
      rw [if_neg fun same => here (hasPlace.apart has same.1), if_neg (here ·.1)]
      exact reflects.maps place known
  entries place known entry member := by
    rw [Heap.entries_setEntries] at member
    split at member
    · exact inside entry member
    · exact reflects.entries place known entry member
  scopes scope hides := by
    have other : scope ≠ changed := fun same => hides.unvalued (same ▸ map)
    have has : world.HasScope scope := .inr hides
    rw [Heap.entries_setEntries, Heap.entries_setEntries, if_neg (other ·.1),
      if_neg fun same => other (has.apart (.inl map) same.1)]
    exact reflects.scopes scope hides
  bare := reflects.bare
  flat := by
    rcases reflects.flat with still | ⟨flat, keys⟩
    · exact .inl still
    · refine hashable.imp_right fun hashable => ⟨flat, fun place known entry member => ?_⟩
      rw [Heap.entries_setEntries] at member
      split at member
      · exact (hashable entry member).setEntries ..
      · exact (keys place known entry member).setEntries ..
  keptSequences := reflects.keptSequences
  keptMaps place old hidden noScope := by
    have other : place ≠ changed := fun same => hidden (same ▸ map)
    rw [Heap.entries_setEntries, if_neg (other ·.1)]
    exact reflects.keptMaps place old hidden noScope

/-- Other entries in a scope that is no value. -/
theorem setScope {changed : Nat} (hides : world.Hides changed) {left right : Entries}
    (alike : world.Alike (world.veiled changed) left right) :
    world.Reflects (one.setEntries changed left)
      (two.setEntries (mirror.moves.maps.place changed) right) where
  sizeSequences := reflects.sizeSequences
  sizeSequencesTwo := reflects.sizeSequencesTwo
  sizeMaps := by simp [Heap.setEntries, reflects.sizeMaps]
  sizeMapsTwo := by simp [Heap.setEntries, reflects.sizeMapsTwo]
  sequences := reflects.sequences
  items := reflects.items
  maps place known := by
    have other : place ≠ changed := fun same => hides.unvalued (same ▸ known)
    have has : world.HasScope place := .inl known
    rw [Heap.entries_setEntries, Heap.entries_setEntries,
      if_neg fun same => other (has.apart (.inr hides) same.1), if_neg (other ·.1)]
    exact reflects.maps place known
  entries place known entry member := by
    have other : place ≠ changed := fun same => hides.unvalued (same ▸ known)
    rw [Heap.entries_setEntries, if_neg (other ·.1)] at member
    exact reflects.entries place known entry member
  scopes scope hidesScope := by
    obtain ⟨bound, boundTwo⟩ := reflects.scope_inside (.inr hides)
    rw [Heap.entries_setEntries, Heap.entries_setEntries]
    by_cases here : scope = changed
    · rw [if_pos ⟨here, bound⟩, if_pos ⟨congrArg _ here, boundTwo⟩, here]
      exact alike
    · have has : world.HasScope scope := .inr hidesScope
      rw [if_neg (here ·.1), if_neg fun same => here (has.apart (.inr hides) same.1)]
      exact reflects.scopes scope hidesScope
  bare := reflects.bare
  flat := by
    refine reflects.flat.imp_right ?_
    rintro ⟨flat, keys⟩
    refine ⟨flat, fun place known entry member => ?_⟩
    have other : place ≠ changed := fun same => hides.unvalued (same ▸ known)
    rw [Heap.entries_setEntries, if_neg (other ·.1)] at member
    exact (keys place known entry member).setEntries ..
  keptSequences := reflects.keptSequences
  keptMaps place old hidden noScope := by
    have other : place ≠ changed := by
      rintro rfl
      exact hides.elim noScope fun new => Nat.not_lt.mpr new.1 old
    rw [Heap.entries_setEntries, if_neg (other ·.1)]
    exact reflects.keptMaps place old hidden noScope

/-- Binding a key of a mapping that may be a value. -/
theorem bindKey {place : Nat} (map : mirror.maps place) {key value : Value} (knownKey : world.Knows key)
    (known : world.Knows value) (hashable : one.Hashable key) :
    world.Reflects (one.setEntries place (one.bind key value (one.entries place)))
      (two.setEntries (mirror.moves.maps.place place) (two.bind (key.move mirror.moves)
        (value.move mirror.moves) (two.entries (mirror.moves.maps.place place)))) := by
  have entries := reflects.entries place map
  rw [reflects.maps place map, reflects.renamed.bind knownKey value fun entry member =>
    (entries entry member).1]
  refine reflects.setEntries map (fun entry member => ⟨?_, ?_⟩)
    (reflects.flat.imp_right fun ⟨_, keys⟩ entry member => ?_)
  · rcases Heap.key_of_mem_bind member with same | ⟨old, among, same⟩
    · exact same ▸ knownKey
    · exact same ▸ (entries old among).1
  · rcases Heap.mem_bind member with same | old
    · exact same ▸ known
    · exact (entries entry old).2
  · rcases Heap.key_of_mem_bind member with same | ⟨old, among, same⟩
    · exact same ▸ hashable
    · exact same ▸ keys place map old among

/-- Binding a name in a scope. -/
theorem bindName {scope : Nat} (has : world.HasScope scope) {word : Text} {value : Value}
    (free : mirror.Binds (world.veiled scope) word) (known : world.Knows value) :
    world.Reflects (one.setEntries scope (one.bind (.text word) value (one.entries scope)))
      (two.setEntries (mirror.moves.maps.place scope) (two.bind (.text word)
        (value.move mirror.moves) (two.entries (mirror.moves.maps.place scope)))) := by
  rcases has with map | hides
  · exact reflects.bindKey map (show world.Knows (.text word) from trivial) known (Heap.hashable_scalar rfl)
  · exact reflects.setScope hides ((reflects.scopes scope hides).bind one two free known)

/-- A new scope. -/
theorem addScope {veil : Bool} {left right : Entries} (alike : world.Alike veil left right) :
    (world.addScope veil).Reflects (one.addMap left).2 (two.addMap right).2 where
  sizeSequences := reflects.sizeSequences
  sizeSequencesTwo := reflects.sizeSequencesTwo
  sizeMaps := by simp [Heap.addMap, World.addScope, reflects.sizeMaps]
  sizeMapsTwo := by
    simp only [Heap.addMap, World.addScope, Array.size_push, reflects.sizeMapsTwo]
    exact (Shift.place_succ world.maps_based).symm
  sequences := reflects.sequences
  items := reflects.items
  maps place known := by
    obtain ⟨bound, boundTwo⟩ := reflects.scope_inside (.inl known)
    rw [Heap.entries_push, Heap.entries_push, if_neg (Nat.ne_of_lt bound),
      if_neg (Nat.ne_of_lt boundTwo)]
    exact reflects.maps place known
  entries place known entry member := by
    have bound := (reflects.scope_inside (.inl known)).1
    rw [Heap.entries_push, if_neg (Nat.ne_of_lt bound)] at member
    exact reflects.entries place known entry member
  scopes scope hides := by
    rw [Heap.entries_push, Heap.entries_push, reflects.sizeMaps]
    by_cases here : scope = world.maps
    · rw [if_pos here, if_pos (here ▸ reflects.sizeMapsTwo.symm), here, world.addScope_veiled]
      exact alike.later (world.reaches_addScope veil)
    · have earlier := hides_of_addScope hides here
      have has : world.HasScope scope := .inr earlier
      rw [if_neg here, if_neg (Nat.ne_of_lt (reflects.scope_inside has).2),
        (world.reaches_addScope veil).veiled scope has.below]
      exact (reflects.scopes scope earlier).later (world.reaches_addScope veil)
  bare := reflects.bare
  flat := by
    refine reflects.flat.imp_right fun ⟨flat, keys⟩ => ⟨flat, fun place known entry member => ?_⟩
    have bound := (reflects.scope_inside (.inl known)).1
    rw [Heap.entries_push, if_neg (Nat.ne_of_lt bound)] at member
    exact (keys place known entry member).addMap _
  keptSequences := reflects.keptSequences
  keptMaps place old hidden noScope := by
    have other : place ≠ one.maps.size := by
      rw [reflects.sizeMaps]
      exact Nat.ne_of_lt (Nat.lt_of_lt_of_le old world.maps_based)
    rw [Heap.entries_push, if_neg other]
    exact reflects.keptMaps place old hidden noScope

end Reflects

end World

end Mirror

end Formula
