import Mathlib.Data.List.Perm.Subperm
import Mathlib.Data.List.Nodup
import Formula.Proofs.Operation

/-!
Fuel is no limit: what an operation on values comes to within the depth of the heap it comes to with
any more fuel. A value that nests finitely meets no place twice on a path, and there are only so many
places.
-/

namespace Formula

namespace Heap

/-- The places of a heap. -/
def places (heap : Heap) : List Place :=
  (List.range heap.sequences.size).map .sequence ++ (List.range heap.maps.size).map .map

theorem length_places (heap : Heap) : heap.places.length + 1 = heap.depth := by
  simp [places, depth]

/-- What a place holds. -/
def held (heap : Heap) : Place → List Value
  | .sequence place => heap.sequence place
  | .map place => (heap.entries place).map (·.1) ++ (heap.entries place).map (·.2)

/-- The elements of a sequence. -/
def elements (heap : Heap) : Place → List Value
  | .sequence place => heap.sequence place
  | .map _ => []

theorem sequence_mem_places {heap : Heap} {place : Nat} (some : heap.sequence place ≠ []) :
    Place.sequence place ∈ heap.places := by
  refine List.mem_append_left _ (List.mem_map_of_mem (List.mem_range.mpr ?_))
  by_contra beyond
  exact some (by simp [sequence, Nat.not_lt.mp beyond])

theorem map_mem_places {heap : Heap} {place : Nat} (some : heap.entries place ≠ []) :
    Place.map place ∈ heap.places := by
  refine List.mem_append_right _ (List.mem_map_of_mem (List.mem_range.mpr ?_))
  by_contra beyond
  exact some (by simp [entries, Nat.not_lt.mp beyond])

theorem held_mem_places {heap : Heap} (place : Place) (some : heap.held place ≠ []) :
    place ∈ heap.places := by
  cases place with
  | sequence place => exact sequence_mem_places some
  | map place => exact map_mem_places fun none => some (by rw [held, none]; rfl)

theorem elements_mem_places {heap : Heap} (place : Place) (some : heap.elements place ≠ []) :
    place ∈ heap.places := by
  cases place with
  | sequence place => exact sequence_mem_places some
  | map place => exact absurd rfl some

end Heap

/-- The place of what a value holds. -/
def Value.place? : Value → Option Heap.Place
  | .tuple place | .list place => some (.sequence place)
  | .map place | .object place => some (.map place)
  | _ => none

/-- A value in which places nest less deep than a bound. -/
def Nested (below : Heap.Place → List Value) : Nat → Value → Prop
  | 0, _ => False
  | bound + 1, value => ∀ place, value.place? = some place → ∀ item ∈ below place, Nested below bound item

section

variable {below : Heap.Place → List Value}

theorem Nested.succ {bound : Nat} {value : Value} (nested : Nested below bound value) :
    Nested below (bound + 1) value := by
  induction bound generalizing value with
  | zero => exact nested.elim
  | succ bound ih => exact fun place here item member => ih (nested place here item member)

theorem Nested.mono {bound wider : Nat} (wide : bound ≤ wider) {value : Value}
    (nested : Nested below bound value) : Nested below wider value := by
  induction wide with
  | refl => exact nested
  | step _ ih => exact ih.succ

/-- A value that nests no less deep than a bound leads through as many different places. -/
theorem Nested.exists_chain {bound : Nat} {value : Value} (nested : Nested below (bound + 1) value)
    (deep : ¬ Nested below bound value) :
    ∃ chain : List Heap.Place, chain.Nodup ∧ chain.length = bound ∧
      ∀ place ∈ chain, below place ≠ [] ∧ ∀ item ∈ below place, Nested below bound item := by
  induction bound generalizing value with
  | zero => exact ⟨[], List.nodup_nil, rfl, nofun⟩
  | succ bound ih =>
      have inner : ∃ place, value.place? = some place ∧
          ∃ item ∈ below place, ¬ Nested below bound item := by
        simpa only [Nested, not_forall, exists_prop] using deep
      obtain ⟨place, here, item, member, deepItem⟩ := inner
      obtain ⟨chain, distinct, length, lower⟩ := ih (nested place here item member) deepItem
      have fresh : place ∉ chain := fun known => deepItem ((lower place known).2 item member)
      refine ⟨place :: chain, List.nodup_cons.mpr ⟨fresh, distinct⟩, by simp [length], ?_⟩
      rw [List.forall_mem_cons]
      refine ⟨⟨List.ne_nil_of_mem member, nested place here⟩, fun known among => ?_⟩
      exact ⟨(lower known among).1, fun other inside => ((lower known among).2 other inside).succ⟩

/-- Finite nesting is no deeper than the heap. -/
theorem Nested.within {heap : Heap} (bounded : ∀ place, below place ≠ [] → place ∈ heap.places)
    {bound : Nat} {value : Value} (nested : Nested below bound value) :
    Nested below heap.depth value := by
  induction bound with
  | zero => exact nested.elim
  | succ bound ih =>
      by_cases deep : Nested below bound value
      · exact ih deep
      · obtain ⟨chain, distinct, length, lower⟩ := nested.exists_chain deep
        have among : chain ⊆ heap.places := fun place member => bounded place (lower place member).1
        have fewer := (List.subperm_of_subset distinct among).length_le
        have depth := heap.length_places
        exact nested.mono (by omega)

end

namespace Heap

variable {heap : Heap}

/-! Equality. -/

theorem allPairs_congr {one other : Value → Value → Bool} {lefts rights : List Value}
    (same : ∀ left ∈ lefts, ∀ right ∈ rights, one left right = other left right) :
    allPairs one lefts rights = allPairs other lefts rights := by
  induction lefts generalizing rights with
  | nil => cases rights <;> rfl
  | cons left lefts ih =>
      cases rights with
      | nil => rfl
      | cons right rights =>
          simp only [List.forall_mem_cons] at same
          rw [allPairs, allPairs, same.1.1, ih fun next member => (same.2 next member).2]

theorem lookupWith_congr {one other : Value → Value → Bool} {key : Value} {entries : Entries}
    (same : ∀ entry ∈ entries, one entry.1 key = other entry.1 key) :
    lookupWith one key entries = lookupWith other key entries := by
  induction entries with
  | nil => rfl
  | cons entry rest ih =>
      rw [List.forall_mem_cons] at same
      have rest := ih same.2
      simp only [lookupWith, List.find?_cons, same.1] at rest ⊢
      cases other entry.1 key with
      | true => rfl
      | false => exact rest

theorem mem_of_lookupWith {equal : Value → Value → Bool} {key value : Value} {entries : Entries}
    (found : lookupWith equal key entries = some value) : ∃ entry ∈ entries, entry.2 = value := by
  simp only [lookupWith, Option.map_eq_some_iff] at found
  obtain ⟨entry, found, rfl⟩ := found
  exact ⟨entry, List.mem_of_find?_eq_some found, rfl⟩

theorem sameEntries_congr {one other : Value → Value → Bool} {lefts rights : Entries}
    (keys : ∀ left ∈ lefts, ∀ right ∈ rights, one right.1 left.1 = other right.1 left.1)
    (values : ∀ left ∈ lefts, ∀ right ∈ rights, one left.2 right.2 = other left.2 right.2) :
    sameEntries one lefts rights = sameEntries other lefts rights := by
  have each : ∀ left ∈ lefts, (lookupWith one left.1 rights).any (one left.2) =
      (lookupWith other left.1 rights).any (other left.2) := by
    intro left member
    rw [lookupWith_congr (keys left member)]
    cases found : lookupWith other left.1 rights with
    | none => rfl
    | some right =>
        obtain ⟨entry, among, rfl⟩ := mem_of_lookupWith found
        exact values left member entry among
  have all : (lefts.all fun entry => (lookupWith one entry.1 rights).any (one entry.2)) =
      lefts.all fun entry => (lookupWith other entry.1 rights).any (other entry.2) := by
    rw [Bool.eq_iff_iff, List.all_eq_true, List.all_eq_true]
    exact forall₂_congr fun left member => by rw [each left member]
  exact congrArg (lefts.length == rights.length && ·) all

/-- Whether a value may be a key, given fuel enough. -/
def Hashable (heap : Heap) (value : Value) : Prop := ∃ depth, heap.isKeyWithin depth value = true

theorem Hashable.item {place : Nat} (key : heap.Hashable (.tuple place)) {item : Value}
    (member : item ∈ heap.sequence place) : heap.Hashable item := by
  obtain ⟨_ | depth, key⟩ := key
  · cases key
  · exact ⟨depth, List.all_eq_true.mp key item member⟩

theorem hashable_scalar {value : Value} (scalar : value.isScalar = true) : heap.Hashable value := by
  refine ⟨1, ?_⟩
  cases value <;> first | rfl | cases scalar

/-- Only sequences decide what may be a key. -/
theorem Hashable.congr {other : Heap} (same : other.sequences = heap.sequences) {value : Value}
    (key : heap.Hashable value) : other.Hashable value := by
  obtain ⟨depth, key⟩ := key
  refine ⟨depth, ?_⟩
  induction depth generalizing value with
  | zero => cases key
  | succ depth ih =>
      cases value with
      | tuple place =>
          have keys : (heap.sequence place).all (heap.isKeyWithin depth) = true := key
          rw [List.all_eq_true] at keys
          change (other.sequence place).all (other.isKeyWithin depth) = true
          rw [Heap.sequence, same, List.all_eq_true]
          exact fun item member => ih (keys item member)
      | _ => exact key

theorem Hashable.setEntries {value : Value} (key : heap.Hashable value) (place : Nat) (entries : Entries) :
    (heap.setEntries place entries).Hashable value :=
  @congr heap (heap.setEntries place entries) rfl value key

theorem Hashable.addMap {value : Value} (key : heap.Hashable value) (entries : Entries) :
    (heap.addMap entries).2.Hashable value :=
  @congr heap (heap.addMap entries).2 rfl value key

/-- Where a key is no tuple, it holds no place. -/
theorem Hashable.tuple_or_placeless {value : Value} (key : heap.Hashable value) :
    (∃ place, value = .tuple place) ∨ value.place? = none := by
  obtain ⟨_ | depth, key⟩ := key
  · cases key
  · cases value <;> first | exact .inr rfl | exact .inl ⟨_, rfl⟩ | cases key

theorem nested_key_of_equalWithin {depth : Nat} {left right : Value} (key : heap.Hashable right)
    (same : heap.equalWithin depth left right = true) : Nested heap.held depth right := by
  induction depth generalizing left right with
  | zero => cases same
  | succ depth ih =>
      have pairs {lefts rights : List Value} (keys : ∀ item ∈ rights, heap.Hashable item)
          (all : allPairs (heap.equalWithin depth) lefts rights = true) :
          ∀ item ∈ rights, Nested heap.held depth item := by
        induction rights generalizing lefts with
        | nil => exact nofun
        | cons item rest inner =>
            cases lefts with
            | nil => cases all
            | cons other others =>
                rw [allPairs, Bool.and_eq_true] at all
                rw [List.forall_mem_cons] at keys
                exact List.forall_mem_cons.mpr ⟨ih keys.1 all.1, inner keys.2 all.2⟩
      intro place here
      rcases key.tuple_or_placeless with ⟨known, rfl⟩ | none
      · cases here
        cases left with
        | tuple other => exact pairs (fun item member => key.item member) same
        | _ => cases same
      · rw [none] at here
        cases here

theorem equalWithin_key {depth other : Nat} {left right : Value} (key : heap.Hashable right)
    (nested : Nested heap.held depth right) (nestedOther : Nested heap.held other right) :
    heap.equalWithin depth left right = heap.equalWithin other left right := by
  induction depth generalizing other left right with
  | zero => exact nested.elim
  | succ depth ih =>
      cases other with
      | zero => exact nestedOther.elim
      | succ other =>
          rcases key.tuple_or_placeless with ⟨known, rfl⟩ | none
          · cases left with
            | tuple place =>
                exact allPairs_congr fun item _ next among =>
                  ih (key.item among) (nested _ rfl next among) (nestedOther _ rfl next among)
            | _ => rfl
          · cases right <;> first | (cases left <;> rfl) | cases none

/-- What a value of some kind leads to is of that kind, and keys may be keys. -/
structure Plain (good : Value → Prop) (heap : Heap) : Prop where
  items : ∀ value place, good value → value.sequence? = some place →
    ∀ item ∈ heap.sequence place, good item
  entries : ∀ value place, good value → value.place? = some (.map place) →
    ∀ entry ∈ heap.entries place, heap.Hashable entry.1 ∧ good entry.2

section

variable {good : Value → Prop} (plain : heap.Plain good)

include plain

theorem nested_of_equalWithin {depth : Nat} {left right : Value} (goodLeft : good left)
    (same : heap.equalWithin depth left right = true) : Nested heap.held depth left := by
  induction depth generalizing left right with
  | zero => cases same
  | succ depth ih =>
      have pairs {lefts rights : List Value} (goods : ∀ item ∈ lefts, good item)
          (all : allPairs (heap.equalWithin depth) lefts rights = true) :
          ∀ item ∈ lefts, Nested heap.held depth item := by
        induction lefts generalizing rights with
        | nil => exact nofun
        | cons item rest inner =>
            cases rights with
            | nil => cases all
            | cons other others =>
                rw [allPairs, Bool.and_eq_true] at all
                rw [List.forall_mem_cons] at goods
                exact List.forall_mem_cons.mpr ⟨ih goods.1 all.1, inner goods.2 all.2⟩
      have entries {lefts rights : Entries}
          (goods : ∀ entry ∈ lefts, heap.Hashable entry.1 ∧ good entry.2)
          (all : sameEntries (heap.equalWithin depth) lefts rights = true) :
          ∀ item ∈ lefts.map (·.1) ++ lefts.map (·.2), Nested heap.held depth item := by
        rw [sameEntries, Bool.and_eq_true, List.all_eq_true] at all
        rw [List.forall_mem_append, List.forall_mem_map, List.forall_mem_map]
        constructor
        all_goals
          intro entry member
          obtain ⟨value, found, equal⟩ := Option.any_eq_true _ _ |>.mp (all.2 entry member)
          rw [lookupWith, Option.map_eq_some_iff] at found
          obtain ⟨other, found, rfl⟩ := found
        · have equalKey : heap.equalWithin depth other.1 entry.1 = true :=
            List.find?_some (p := fun other : Value × Value => heap.equalWithin depth other.1 entry.1) found
          exact nested_key_of_equalWithin (goods entry member).1 equalKey
        · exact ih (goods entry member).2 equal
      intro place here
      cases left with
      | tuple place =>
          cases here
          cases right with
          | tuple other => exact pairs (plain.items _ place goodLeft rfl) same
          | _ => cases same
      | list place =>
          cases here
          cases right with
          | list other => exact pairs (plain.items _ place goodLeft rfl) same
          | _ => cases same
      | map place =>
          cases here
          cases right with
          | map other => exact entries (plain.entries _ place goodLeft rfl) same
          | _ => cases same
      | object place =>
          cases here
          cases right with
          | object other => exact entries (plain.entries _ place goodLeft rfl) same
          | _ => cases same
      | _ => cases here

theorem equalWithin_nested {depth other : Nat} {left right : Value} (goodLeft : good left)
    (nested : Nested heap.held depth left) (nestedOther : Nested heap.held other left) :
    heap.equalWithin depth left right = heap.equalWithin other left right := by
  induction depth generalizing other left right with
  | zero => exact nested.elim
  | succ depth ih =>
      cases other with
      | zero => exact nestedOther.elim
      | succ other =>
          have pairs {one two : Nat} (here : left.sequence? = some one)
              (place : left.place? = some (.sequence one)) :
              allPairs (heap.equalWithin depth) (heap.sequence one) (heap.sequence two) =
                allPairs (heap.equalWithin other) (heap.sequence one) (heap.sequence two) := by
            refine allPairs_congr fun item member next _ => ?_
            exact ih (plain.items left one goodLeft here item member) (nested _ place item member)
              (nestedOther _ place item member)
          have entries {one two : Nat} (here : left.place? = some (.map one)) :
              sameEntries (heap.equalWithin depth) (heap.entries one) (heap.entries two) =
                sameEntries (heap.equalWithin other) (heap.entries one) (heap.entries two) := by
            have good := plain.entries left one goodLeft here
            have keys {entry : Value × Value} (member : entry ∈ heap.entries one) :
                entry.1 ∈ heap.held (.map one) := List.mem_append_left _ (List.mem_map_of_mem member)
            have values {entry : Value × Value} (member : entry ∈ heap.entries one) :
                entry.2 ∈ heap.held (.map one) := List.mem_append_right _ (List.mem_map_of_mem member)
            refine sameEntries_congr (fun entry member _ _ => ?_) fun entry member _ _ => ?_
            · exact equalWithin_key (good entry member).1 (nested _ here _ (keys member))
                (nestedOther _ here _ (keys member))
            · exact ih (good entry member).2 (nested _ here _ (values member))
                (nestedOther _ here _ (values member))
          cases left <;> cases right <;> first
            | rfl
            | exact pairs rfl rfl
            | exact entries rfl

/-- Equality needs no more fuel than the depth of the heap. -/
theorem equalWithin_enough {left right : Value} (goodLeft : good left) {fuel : Nat}
    (enough : heap.depth ≤ fuel) : heap.equalWithin fuel left right = heap.equal left right := by
  rw [equal, Bool.eq_iff_iff]
  constructor
  · intro same
    have nested := nested_of_equalWithin plain goodLeft same
    rwa [← equalWithin_nested plain goodLeft nested (nested.within held_mem_places)]
  · intro same
    have nested := nested_of_equalWithin plain goodLeft same
    rwa [← equalWithin_nested plain goodLeft nested (nested.mono enough)]

end

/-! Keys, order and text: these go through sequences only. -/

theorem isKeyWithin_nested {depth other : Nat} {value : Value}
    (nested : Nested heap.elements depth value) (nestedOther : Nested heap.elements other value) :
    heap.isKeyWithin depth value = heap.isKeyWithin other value := by
  induction depth generalizing other value with
  | zero => exact nested.elim
  | succ depth ih =>
      cases other with
      | zero => exact nestedOther.elim
      | succ other =>
          cases value with
          | tuple place =>
              simp only [isKeyWithin]
              rw [Bool.eq_iff_iff, List.all_eq_true, List.all_eq_true]
              exact forall₂_congr fun item member => by
                rw [ih (nested _ rfl item member) (nestedOther _ rfl item member)]
          | _ => rfl

theorem testWithin_nested {test : OrderTest} {depth other : Nat} {left right : Value}
    (nested : Nested heap.elements depth left) (nestedOther : Nested heap.elements other left) :
    heap.testWithin test depth left right = heap.testWithin test other left right := by
  induction depth generalizing other left right with
  | zero => exact nested.elim
  | succ depth ih =>
      cases other with
      | zero => exact nestedOther.elim
      | succ other =>
          have differ {lefts rights : List Value} {one two : Value}
              (found : (lefts.zip rights).find? (fun pair => !heap.equal pair.1 pair.2) = some (one, two)) :
              one ∈ lefts := (List.of_mem_zip (List.mem_of_find?_eq_some found)).1
          cases left with
          | tuple place =>
              cases right with
              | tuple next =>
                  simp only [testWithin, Value.numeric?]
                  split
                  · rename_i found
                    exact ih (nested _ rfl _ (differ found)) (nestedOther _ rfl _ (differ found))
                  · rfl
              | _ => rfl
          | list place =>
              cases right with
              | list next =>
                  simp only [testWithin, Value.numeric?]
                  split
                  · rename_i found
                    exact ih (nested _ rfl _ (differ found)) (nestedOther _ rfl _ (differ found))
                  · rfl
              | _ => rfl
          | _ => cases right <;> rfl

theorem spelledWithin_nested {depth other : Nat} {value : Value}
    (nested : Nested heap.elements depth value) (nestedOther : Nested heap.elements other value) :
    heap.spelledWithin depth value = heap.spelledWithin other value := by
  induction depth generalizing other value with
  | zero => exact nested.elim
  | succ depth ih =>
      cases other with
      | zero => exact nestedOther.elim
      | succ other =>
          have items {place : Nat} (here : value.place? = some (.sequence place)) :
              (heap.sequence place).map (heap.spelledWithin depth) =
                (heap.sequence place).map (heap.spelledWithin other) :=
            List.map_congr_left fun item member =>
              ih (nested _ here item member) (nestedOther _ here item member)
          cases value with
          | tuple place => simp only [spelledWithin, items rfl]
          | list place => simp only [spelledWithin, items rfl]
          | _ => rfl

/-- What is shown of a value depends on fuel only if places are left in which it was not met before:
inside itself a value is shown as dots. -/
theorem shownWithin_enough {room depth other : Nat} {outer : List Place} (value : Value)
    (distinct : outer.Nodup) (among : outer ⊆ heap.places)
    (left : heap.places.length ≤ outer.length + room) (enough : room < depth) (enoughOther : room < other) :
    heap.shownWithin depth outer value = heap.shownWithin other outer value := by
  induction room generalizing depth other outer value with
  | zero =>
      obtain ⟨depth, rfl⟩ := Nat.exists_eq_add_of_lt enough
      obtain ⟨other, rfl⟩ := Nat.exists_eq_add_of_lt enoughOther
      have all : ∀ place ∈ heap.places, place ∈ outer := fun place member =>
        ((List.subperm_of_subset distinct among).perm_of_length_le left).mem_iff.mpr member
      have sequences {place : Nat} (new : Place.sequence place ∉ outer) : heap.sequence place = [] := by
        by_contra some
        exact new (all _ (sequence_mem_places some))
      have entries {place : Nat} (new : Place.map place ∉ outer) : heap.entries place = [] := by
        by_contra some
        exact new (all _ (map_mem_places some))
      cases value with
      | tuple place =>
          simp only [shownWithin]
          split
          · rfl
          · rename_i new
            rw [sequences new]
            rfl
      | list place =>
          simp only [shownWithin]
          split
          · rfl
          · rename_i new
            rw [sequences new]
            rfl
      | map place =>
          simp only [shownWithin]
          split
          · rfl
          · rename_i new
            rw [entries new]
            rfl
      | _ => rfl
  | succ room ih =>
      obtain ⟨depth, rfl⟩ := Nat.exists_eq_add_of_lt enough
      obtain ⟨other, rfl⟩ := Nat.exists_eq_add_of_lt enoughOther
      have inner {place : Place} (known : place ∈ heap.places) (new : place ∉ outer) (item : Value) :
          heap.shownWithin (room + 1 + depth) (place :: outer) item =
            heap.shownWithin (room + 1 + other) (place :: outer) item := by
        refine ih item (List.nodup_cons.mpr ⟨new, distinct⟩) (List.cons_subset.mpr ⟨known, among⟩) ?_
          (by omega) (by omega)
        rw [List.length_cons]
        omega
      have items {place : Nat} (new : Place.sequence place ∉ outer) :
          (heap.sequence place).map (heap.shownWithin (room + 1 + depth) (.sequence place :: outer)) =
            (heap.sequence place).map (heap.shownWithin (room + 1 + other) (.sequence place :: outer)) := by
        refine List.map_congr_left fun item member => inner ?_ new item
        exact sequence_mem_places (List.ne_nil_of_mem member)
      cases value with
      | tuple place =>
          simp only [shownWithin]
          split
          · rfl
          · rename_i new
            rw [items new]
      | list place =>
          simp only [shownWithin]
          split
          · rfl
          · rename_i new
            rw [items new]
      | map place =>
          simp only [shownWithin]
          split
          · rfl
          · rename_i new
            have parts : (heap.entries place).map (fun entry =>
                heap.shownWithin (room + 1 + depth) (.map place :: outer) entry.1 ++ Text.ofString ": " ++
                  heap.shownWithin (room + 1 + depth) (.map place :: outer) entry.2) =
                (heap.entries place).map fun entry =>
                  heap.shownWithin (room + 1 + other) (.map place :: outer) entry.1 ++ Text.ofString ": " ++
                    heap.shownWithin (room + 1 + other) (.map place :: outer) entry.2 := by
              refine List.map_congr_left fun entry member => ?_
              have known := map_mem_places (List.ne_nil_of_mem member)
              rw [inner known new, inner known new]
            exact congrArg (Text.ofString "\x7b" ++ Text.join separator · ++ Text.ofString "\x7d") parts
      | _ => rfl

/-- Fuel with which all operations on good values come to what they come to within the depth of the
heap. -/
structure Steady (heap : Heap) (good : Value → Prop) (fuel : Nat) : Prop where
  equal : ∀ left right, good left → good right →
    heap.equalWithin fuel left right = heap.equal left right
  isKey : ∀ value, good value → heap.isKeyWithin fuel value = heap.isKey value
  test : ∀ test left right, good left → good right →
    heap.testWithin test fuel left right = heap.test test left right
  spelled : ∀ value, good value → heap.spelledWithin fuel value = heap.spelled value
  shown : ∀ value, good value → heap.shownWithin fuel [] value = heap.shown value

theorem steady_depth (heap : Heap) (good : Value → Prop) : heap.Steady good heap.depth :=
  ⟨fun _ _ _ _ => rfl, fun _ _ => rfl, fun _ _ _ _ _ => rfl, fun _ _ => rfl, fun _ _ => rfl⟩

/-- More fuel than the depth of the heap changes nothing, if no sequence holds itself. -/
theorem steady_of_founded {good : Value → Prop} (plain : heap.Plain good)
    (founded : ∀ value, good value → ∃ bound, Nested heap.elements bound value) {fuel : Nat}
    (enough : heap.depth ≤ fuel) : heap.Steady good fuel := by
  have within (value : Value) (known : good value) : Nested heap.elements heap.depth value := by
    obtain ⟨bound, nested⟩ := founded value known
    exact nested.within elements_mem_places
  have more (value : Value) (known : good value) : Nested heap.elements fuel value :=
    (within value known).mono enough
  constructor
  · exact fun left right goodLeft _ => equalWithin_enough plain goodLeft enough
  · exact fun value known => isKeyWithin_nested (more value known) (within value known)
  · exact fun test left right known _ => testWithin_nested (more left known) (within left known)
  · exact fun value known => spelledWithin_nested (more value known) (within value known)
  · intro value _
    have depth := heap.length_places
    exact shownWithin_enough value List.nodup_nil (List.nil_subset _) (Nat.le_add_left ..)
      (by omega) (by omega)

end Heap

end Formula
