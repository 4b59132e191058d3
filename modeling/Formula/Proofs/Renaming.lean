import Formula.Proofs.Binding
import Formula.Proofs.Nesting
import Formula.Proofs.Refusal

/-!
Values and heaps with other places: what is at a place of the one heap is at the moved place of the
other. Operations that look at the heap come to the same there.
-/

namespace Formula

/-- Places below a base go where `old` says, those from it on follow each other from a target on. -/
structure Shift where
  base : Nat
  target : Nat
  old : Nat → Nat

namespace Shift

def place (shift : Shift) (place : Nat) : Nat :=
  if place < shift.base then shift.old place else shift.target + (place - shift.base)

/-- Everything stays in its place. -/
def still (base : Nat) : Shift := ⟨base, base, id⟩

variable {shift : Shift} {one other : Nat}

theorem place_old (old : one < shift.base) : shift.place one = shift.old one := if_pos old

theorem place_new (new : shift.base ≤ one) : shift.place one = shift.target + (one - shift.base) :=
  if_neg (Nat.not_lt.mpr new)

theorem target_le_place (new : shift.base ≤ one) : shift.target ≤ shift.place one := by
  rw [place_new new]
  exact Nat.le_add_right ..

theorem place_succ (new : shift.base ≤ one) : shift.place (one + 1) = shift.place one + 1 := by
  rw [place_new new, place_new (Nat.le_succ_of_le new)]
  omega

theorem place_new_injective (newOne : shift.base ≤ one) (newOther : shift.base ≤ other)
    (same : shift.place one = shift.place other) : one = other := by
  rw [place_new newOne, place_new newOther] at same
  omega

@[simp] theorem place_still (base one : Nat) : (still base).place one = one := by
  rcases Nat.lt_or_ge one base with old | new
  · exact place_old old
  · rw [place_new new]
    exact Nat.add_sub_cancel' new

end Shift

/-- What places become, of each kind. -/
structure Renaming where
  sequences : Shift
  maps : Shift
  functions : Shift
  functions_injective : Function.Injective functions.place

def Value.move (moves : Renaming) : Value → Value
  | .tuple place => .tuple (moves.sequences.place place)
  | .list place => .list (moves.sequences.place place)
  | .map place => .map (moves.maps.place place)
  | .object place => .object (moves.maps.place place)
  | .defined place => .defined (moves.functions.place place)
  | value => value

def Heap.Place.move (moves : Renaming) : Heap.Place → Heap.Place
  | .sequence place => .sequence (moves.sequences.place place)
  | .map place => .map (moves.maps.place place)

def Failure.move (moves : Renaming) : Failure → Failure
  | .evaluation (.notFunction value) => .evaluation (.notFunction (value.move moves))
  | .evaluation (.memberOf name target) =>
    .evaluation (.memberOf (name.move moves) (target.move moves))
  | failure => failure

theorem Failure.move_bare (moves : Renaming) {failure : Failure} (bare : failure.isBare = true) :
    failure.move moves = failure := by
  unfold move
  split
  · cases bare
  · cases bare
  · rfl

/-- Whether all values that a failure names are of some kind. -/
def Failure.Holds (good : Value → Prop) : Failure → Prop
  | .evaluation (.notFunction value) => good value
  | .evaluation (.memberOf name target) => good name ∧ good target
  | failure => failure.isBare = true

theorem Failure.holds_bare (good : Value → Prop) {failure : Failure} (bare : failure.isBare = true) :
    failure.Holds good := by
  unfold Holds
  split
  · cases bare
  · cases bare
  · exact bare

def Member.move (moves : Renaming) : Member → Member
  | .value known => .value (known.move moves)
  | .method => .method

/-- Entries with keys and values moved. -/
def Entries.move (moves : Renaming) (entries : Entries) : Entries :=
  entries.map fun entry => (entry.1.move moves, entry.2.move moves)

namespace Value

variable (moves : Renaming) (value : Value)

@[simp] theorem move_text (content : Text) : (text content).move moves = .text content := rfl

@[simp] theorem move_tuple (place : Nat) :
    (tuple place).move moves = .tuple (moves.sequences.place place) := rfl

@[simp] theorem move_list (place : Nat) :
    (list place).move moves = .list (moves.sequences.place place) := rfl

@[simp] theorem move_map (place : Nat) : (map place).move moves = .map (moves.maps.place place) := rfl

@[simp] theorem move_object (place : Nat) :
    (object place).move moves = .object (moves.maps.place place) := rfl

@[simp] theorem move_defined (place : Nat) :
    (defined place).move moves = .defined (moves.functions.place place) := rfl

@[simp] theorem numeric?_move : (value.move moves).numeric? = value.numeric? := by cases value <;> rfl

@[simp] theorem numeric_move : (value.move moves).numeric = value.numeric := by
  rw [numeric, numeric, numeric?_move]

@[simp] theorem isNotANumber_move : (value.move moves).isNotANumber = value.isNotANumber := by
  cases value <;> rfl

@[simp] theorem isCallable_move : (value.move moves).isCallable = value.isCallable := by
  cases value <;> rfl

@[simp] theorem spells_move (name : Text) : (value.move moves).spells name = value.spells name := by
  cases value <;> rfl

@[simp] theorem isScalar_move : (value.move moves).isScalar = value.isScalar := by
  cases value <;> rfl

theorem sequence?_move :
    (value.move moves).sequence? = value.sequence?.map moves.sequences.place := by
  cases value <;> rfl

theorem place?_move : (value.move moves).place? = value.place?.map (·.move moves) := by
  cases value <;> rfl

variable {value}

theorem move_scalar (scalar : value.isScalar = true) : value.move moves = value := by
  cases value <;> first | rfl | cases scalar

theorem place?_of_sequence? {place : Nat} (found : value.sequence? = some place) :
    value.place? = some (.sequence place) := by
  cases value <;> cases found <;> rfl

variable {moves}

theorem sameCallable_move (left right : Value) :
    (left.move moves).sameCallable (right.move moves) = left.sameCallable right := by
  cases left with
  | defined one =>
      cases right with
      | defined two =>
          refine decide_eq_decide.mpr ⟨fun same => ?_, fun same => by rw [same]⟩
          exact moves.functions_injective same
      | _ => rfl
  | _ => cases right <;> rfl

end Value

theorem named_move (moves : Renaming) (entries : Entries) (name : Text) :
    named (entries.move moves) name = (named entries name).map (·.move moves) := by
  have spelled : (fun entry : Value × Value => entry.1.spells name) ∘
      (fun entry : Value × Value => (entry.1.move moves, entry.2.move moves)) =
        fun entry => entry.1.spells name :=
    funext fun entry => entry.1.spells_move moves name
  simp only [named, Entries.move, List.find?_map, spelled, Option.map_map]
  rfl

namespace Member

variable (moves : Renaming) (name : Text)

theorem move_ofBool (isMethod : Bool) : (ofBool isMethod).move moves = ofBool isMethod := by
  cases isMethod <;> rfl

theorem move_ofInteger (number : Int) : (ofInteger number name).move moves = ofInteger number name := by
  unfold ofInteger
  split
  · rfl
  · split
    · rfl
    · split
      · rfl
      · exact move_ofBool ..

theorem move_ofFloat {value : Value} (scalar : value.isScalar = true) :
    (ofFloat value name).move moves = ofFloat value name := by
  unfold ofFloat
  split
  · exact congrArg Member.value (Value.move_scalar moves scalar)
  · split
    · rfl
    · exact move_ofBool ..

end Member

namespace Heap

variable {moves : Renaming}

theorem allPairs_map (equal : Value → Value → Bool) (lefts rights : List Value) :
    allPairs equal (lefts.map (·.move moves)) (rights.map (·.move moves)) =
      allPairs (fun left right => equal (left.move moves) (right.move moves)) lefts rights := by
  induction lefts generalizing rights with
  | nil => cases rights <;> rfl
  | cons left lefts ih =>
      cases rights with
      | nil => rfl
      | cons right rights => rw [List.map_cons, List.map_cons, allPairs, allPairs, ih]

theorem lookupWith_move (equal : Value → Value → Bool) (key : Value) (entries : Entries) :
    lookupWith equal (key.move moves) (entries.move moves) =
      (lookupWith (fun left right => equal (left.move moves) (right.move moves)) key entries).map
        (·.move moves) := by
  simp only [lookupWith, Entries.move, List.find?_map, Option.map_map]
  rfl

theorem sameEntries_move (equal : Value → Value → Bool) (lefts rights : Entries) :
    sameEntries equal (lefts.move moves) (rights.move moves) =
      sameEntries (fun left right => equal (left.move moves) (right.move moves)) lefts rights := by
  have length (entries : Entries) : (entries.move moves).length = entries.length := List.length_map _
  have each : ((lefts.move moves).all fun entry =>
      (lookupWith equal entry.1 (rights.move moves)).any (equal entry.2)) =
      lefts.all fun entry => (lookupWith
        (fun left right => equal (left.move moves) (right.move moves)) entry.1 rights).any
          fun right => equal (entry.2.move moves) (right.move moves) := by
    rw [Entries.move, List.all_map]
    congr 1
    funext entry
    simp only [Function.comp, lookupWith_move, Option.any_map]
  rw [sameEntries, length, length]
  exact congrArg (lefts.length == rights.length && ·) each

/-- Good places keep apart when they are moved. Only bare sequences, which hold no mapping at any depth, may
come together, and only if they are equally high. -/
structure Apart (moves : Renaming) (good : Value → Prop) (bare : Nat → Prop) (height : Nat → Nat)
    (heap : Heap) : Prop where
  maps : ∀ left right one other, good left → good right → left.place? = some (.map one) →
    right.place? = some (.map other) → moves.maps.place one = moves.maps.place other → one = other
  sequences : ∀ left right one other, good left → good right → left.place? = some (.sequence one) →
    right.place? = some (.sequence other) → moves.sequences.place one = moves.sequences.place other →
      one = other ∨ bare one ∧ bare other ∧ height one = height other
  items : ∀ place, bare place → ∀ item ∈ heap.sequence place, ∀ inner, item.place? = some inner →
    ∃ next, inner = .sequence next ∧ bare next ∧ height next < height place

/-- A heap that holds at moved places what another holds of good values, which lead to good ones only.
-/
structure Renamed (moves : Renaming) (good : Value → Prop) (one two : Heap) : Prop where
  sequences : ∀ value place, good value → value.place? = some (.sequence place) →
    two.sequence (moves.sequences.place place) = (one.sequence place).map (·.move moves)
  items : ∀ value place, good value → value.place? = some (.sequence place) →
    ∀ item ∈ one.sequence place, good item
  maps : ∀ value place, good value → value.place? = some (.map place) →
    two.entries (moves.maps.place place) = (one.entries place).move moves
  entries : ∀ value place, good value → value.place? = some (.map place) →
    ∀ entry ∈ one.entries place, good entry.1 ∧ good entry.2
  apart : ∃ bare height, one.Apart moves good bare height
  steady : ∃ fuel, one.Steady good fuel ∧
    two.Steady (fun value => ∃ known, good known ∧ value = known.move moves) fuel

namespace Renamed

variable {good : Value → Prop} {one two : Heap} (renamed : one.Renamed moves good two)

include renamed

theorem truth {value : Value} (known : good value) :
    two.truth (value.move moves) = one.truth value := by
  cases value with
  | tuple place | list place =>
      simp only [Heap.truth, Value.move, renamed.sequences _ place known rfl]
      cases one.sequence place <;> rfl
  | map place =>
      simp only [Heap.truth, Value.move, renamed.maps _ place known rfl]
      cases one.entries place <;> rfl
  | _ => rfl

theorem equalWithin (depth : Nat) {left right : Value} (knownLeft : good left) (knownRight : good right) :
    two.equalWithin depth (left.move moves) (right.move moves) =
      one.equalWithin depth left right := by
  induction depth generalizing left right with
  | zero => rfl
  | succ depth ih =>
      have pairs {here there : Nat} (placeLeft : left.place? = some (.sequence here))
          (placeRight : right.place? = some (.sequence there)) :
          allPairs (two.equalWithin depth) (two.sequence (moves.sequences.place here))
              (two.sequence (moves.sequences.place there)) =
            allPairs (one.equalWithin depth) (one.sequence here) (one.sequence there) := by
        rw [renamed.sequences _ _ knownLeft placeLeft, renamed.sequences _ _ knownRight placeRight,
          allPairs_map]
        exact allPairs_congr fun item member other among =>
          ih (renamed.items _ _ knownLeft placeLeft item member)
            (renamed.items _ _ knownRight placeRight other among)
      have entries {here there : Nat} (placeLeft : left.place? = some (.map here))
          (placeRight : right.place? = some (.map there)) :
          sameEntries (two.equalWithin depth) (two.entries (moves.maps.place here))
              (two.entries (moves.maps.place there)) =
            sameEntries (one.equalWithin depth) (one.entries here) (one.entries there) := by
        rw [renamed.maps _ _ knownLeft placeLeft, renamed.maps _ _ knownRight placeRight,
          sameEntries_move]
        have lefts := renamed.entries _ _ knownLeft placeLeft
        have rights := renamed.entries _ _ knownRight placeRight
        exact sameEntries_congr
          (fun entry member other among => ih (rights other among).1 (lefts entry member).1)
          fun entry member other among => ih (lefts entry member).2 (rights other among).2
      have callables (same : two.equalWithin (depth + 1) (left.move moves) (right.move moves) =
          (left.move moves).sameCallable (right.move moves)) :
          two.equalWithin (depth + 1) (left.move moves) (right.move moves) =
            left.sameCallable right := same.trans (Value.sameCallable_move left right)
      cases left <;> cases right <;> first
        | rfl
        | exact pairs rfl rfl
        | exact entries rfl rfl
        | exact callables rfl

theorem equal {left right : Value} (knownLeft : good left) (knownRight : good right) :
    two.equal (left.move moves) (right.move moves) = one.equal left right := by
  obtain ⟨fuel, steadyOne, steadyTwo⟩ := renamed.steady
  rw [← steadyTwo.equal _ _ ⟨left, knownLeft, rfl⟩ ⟨right, knownRight, rfl⟩,
    renamed.equalWithin fuel knownLeft knownRight, steadyOne.equal left right knownLeft knownRight]

theorem same {left right : Value} (knownLeft : good left) (knownRight : good right) :
    two.same (left.move moves) (right.move moves) = one.same left right := by
  have equal := renamed.equal knownLeft knownRight
  cases left <;> cases right <;> first | rfl | exact equal

theorem lookup {key : Value} (known : good key) {entries : Entries}
    (keys : ∀ entry ∈ entries, good entry.1) :
    two.lookup (key.move moves) (entries.move moves) =
      (one.lookup key entries).map (·.move moves) := by
  rw [Heap.lookup, lookupWith_move]
  exact congrArg _ (lookupWith_congr fun entry member => renamed.equal (keys entry member) known)

theorem bind {key : Value} (known : good key) (value : Value) {entries : Entries}
    (keys : ∀ entry ∈ entries, good entry.1) :
    two.bind (key.move moves) (value.move moves) (entries.move moves) =
      (one.bind key value entries).move moves := by
  induction entries with
  | nil => rfl
  | cons entry rest ih =>
      obtain ⟨old, held⟩ := entry
      rw [List.forall_mem_cons] at keys
      have same := renamed.equal keys.1 known
      have later := ih keys.2
      simp only [Entries.move, List.map_cons, Heap.bind, same] at later ⊢
      split
      · rfl
      · rw [later, List.map_cons]

theorem isKeyWithin (depth : Nat) {value : Value} (known : good value) :
    two.isKeyWithin depth (value.move moves) = one.isKeyWithin depth value := by
  induction depth generalizing value with
  | zero => rfl
  | succ depth ih =>
      cases value with
      | tuple place =>
          change (two.sequence (moves.sequences.place place)).all (two.isKeyWithin depth) =
            (one.sequence place).all (one.isKeyWithin depth)
          rw [renamed.sequences _ place known rfl, List.all_map, Bool.eq_iff_iff, List.all_eq_true,
            List.all_eq_true]
          exact forall₂_congr fun item member => by
            rw [Function.comp, ih (renamed.items _ place known rfl item member)]
      | _ => rfl

theorem isKey {value : Value} (known : good value) :
    two.isKey (value.move moves) = one.isKey value := by
  obtain ⟨fuel, steadyOne, steadyTwo⟩ := renamed.steady
  rw [← steadyTwo.isKey _ ⟨value, known, rfl⟩, renamed.isKeyWithin fuel known, steadyOne.isKey value known]

/-- The first elements of two sequences that differ are at the same position. -/
theorem find_differing {lefts rights : List Value} (knownLeft : ∀ item ∈ lefts, good item)
    (knownRight : ∀ item ∈ rights, good item) :
    ((lefts.map (·.move moves)).zip (rights.map (·.move moves))).find?
        (fun pair => !two.equal pair.1 pair.2) =
      ((lefts.zip rights).find? fun pair => !one.equal pair.1 pair.2).map
        fun pair => (pair.1.move moves, pair.2.move moves) := by
  induction lefts generalizing rights with
  | nil => rfl
  | cons left lefts ih =>
      cases rights with
      | nil => rfl
      | cons right rights =>
          rw [List.forall_mem_cons] at knownLeft knownRight
          simp only [List.map_cons, List.zip_cons_cons, List.find?_cons,
            renamed.equal knownLeft.1 knownRight.1]
          cases one.equal left right with
          | true => exact ih knownLeft.2 knownRight.2
          | false => rfl

theorem testWithin (test : OrderTest) (depth : Nat) {left right : Value} (knownLeft : good left)
    (knownRight : good right) :
    two.testWithin test depth (left.move moves) (right.move moves) =
      one.testWithin test depth left right := by
  induction depth generalizing left right with
  | zero => rfl
  | succ depth ih =>
      have differing {here there : Nat} (placeLeft : left.place? = some (.sequence here))
          (placeRight : right.place? = some (.sequence there)) :
          ((two.sequence (moves.sequences.place here)).zip
              (two.sequence (moves.sequences.place there))).find? (fun pair => !two.equal pair.1 pair.2) =
            (((one.sequence here).zip (one.sequence there)).find?
              fun pair => !one.equal pair.1 pair.2).map fun pair =>
                (pair.1.move moves, pair.2.move moves) := by
        rw [renamed.sequences _ _ knownLeft placeLeft, renamed.sequences _ _ knownRight placeRight]
        exact renamed.find_differing (renamed.items _ _ knownLeft placeLeft)
          (renamed.items _ _ knownRight placeRight)
      have length {value : Value} {place : Nat} (known : good value)
          (here : value.place? = some (.sequence place)) :
          (two.sequence (moves.sequences.place place)).length = (one.sequence place).length := by
        rw [renamed.sequences _ _ known here, List.length_map]
      have pairs {here there : Nat} (placeLeft : left.place? = some (.sequence here))
          (placeRight : right.place? = some (.sequence there)) {pair : Value × Value}
          (found : ((one.sequence here).zip (one.sequence there)).find?
            (fun pair => !one.equal pair.1 pair.2) = some pair) :
          two.testWithin test depth (pair.1.move moves) (pair.2.move moves) =
            one.testWithin test depth pair.1 pair.2 := by
        have among := List.of_mem_zip (List.mem_of_find?_eq_some found)
        exact ih (renamed.items _ _ knownLeft placeLeft _ among.1)
          (renamed.items _ _ knownRight placeRight _ among.2)
      cases left with
      | tuple here =>
          cases right with
          | tuple there =>
              simp only [Heap.testWithin, Value.move_tuple, Value.numeric?, differing rfl rfl,
                length knownLeft rfl, length knownRight rfl]
              cases found : ((one.sequence here).zip (one.sequence there)).find?
                  (fun pair => !one.equal pair.1 pair.2) with
              | none => rfl
              | some pair => exact pairs rfl rfl found
          | _ => rfl
      | list here =>
          cases right with
          | list there =>
              simp only [Heap.testWithin, Value.move_list, Value.numeric?, differing rfl rfl,
                length knownLeft rfl, length knownRight rfl]
              cases found : ((one.sequence here).zip (one.sequence there)).find?
                  (fun pair => !one.equal pair.1 pair.2) with
              | none => rfl
              | some pair => exact pairs rfl rfl found
          | _ => rfl
      | _ => cases right <;> rfl

theorem test (test : OrderTest) {left right : Value} (knownLeft : good left) (knownRight : good right) :
    two.test test (left.move moves) (right.move moves) = one.test test left right := by
  obtain ⟨fuel, steadyOne, steadyTwo⟩ := renamed.steady
  rw [← steadyTwo.test test _ _ ⟨left, knownLeft, rfl⟩ ⟨right, knownRight, rfl⟩,
    renamed.testWithin test fuel knownLeft knownRight, steadyOne.test test left right knownLeft knownRight]

/-- Around a value stand good places, and beneath the bare ones among them everything is bare and lower. -/
structure Around (good : Value → Prop) (bare : Nat → Prop) (height : Nat → Nat) (outer : List Place)
    (value : Value) : Prop where
  good : ∀ place ∈ outer, ∃ value, good value ∧ value.place? = some place
  lower : ∀ around, Place.sequence around ∈ outer → bare around → ∀ inner, value.place? = some inner →
    ∃ next, inner = .sequence next ∧ bare next ∧ height next < height around

section

variable {bare : Nat → Prop} {height : Nat → Nat} (apart : one.Apart moves good bare height)
  {outer : List Place} {value item : Value}

include apart

omit renamed in
/-- A place is met again on the one side if it is on the other. -/
theorem met_again (around : Around good bare height outer value) (known : good value) {place : Place}
    (here : value.place? = some place) :
    place.move moves ∈ outer.map (·.move moves) ↔ place ∈ outer := by
  refine ⟨fun member => ?_, List.mem_map_of_mem⟩
  obtain ⟨other, among, same⟩ := List.mem_map.mp member
  obtain ⟨outside, goodOutside, there⟩ := around.good other among
  cases place with
  | sequence one =>
      cases other with
      | map other => cases same
      | sequence other =>
          rcases apart.sequences value outside one other known goodOutside here there
            (Place.sequence.inj same).symm with rfl | ⟨-, bareOther, equal⟩
          · exact among
          · -- A bare sequence around the value would be higher than the value.
            obtain ⟨next, inner, -, lower⟩ := around.lower other among bareOther _ here
            cases inner
            omega
  | map one =>
      cases other with
      | sequence other => cases same
      | map other =>
          obtain rfl := apart.maps value outside one other known goodOutside here there
            (Place.map.inj same).symm
          exact among

omit renamed in
theorem around_item (around : Around good bare height outer value) (known : good value) {place : Nat}
    (here : value.place? = some (.sequence place)) (member : item ∈ one.sequence place) :
    Around good bare height (.sequence place :: outer) item where
  good := List.forall_mem_cons.mpr ⟨⟨value, known, here⟩, around.good⟩
  lower outside among bareOutside inner inside := by
    rcases List.mem_cons.mp among with same | outer
    · cases same
      exact apart.items place bareOutside item member inner inside
    · obtain ⟨next, same, bareNext, lower⟩ := around.lower outside outer bareOutside _ here
      cases same
      obtain ⟨last, equal, bareLast, lowest⟩ := apart.items place bareNext item member inner inside
      exact ⟨last, equal, bareLast, Nat.lt_trans lowest lower⟩

omit renamed apart in
/-- No bare sequence stands around a mapping. -/
theorem around_entry (around : Around good bare height outer value) (known : good value) {place : Nat}
    (here : value.place? = some (.map place)) : Around good bare height (.map place :: outer) item where
  good := List.forall_mem_cons.mpr ⟨⟨value, known, here⟩, around.good⟩
  lower outside among bareOutside inner inside := by
    rcases List.mem_cons.mp among with same | outer
    · cases same
    · obtain ⟨next, same, -⟩ := around.lower outside outer bareOutside _ here
      cases same

theorem shownWithin (depth : Nat) (known : good value) (around : Around good bare height outer value) :
    two.shownWithin depth (outer.map (·.move moves)) (value.move moves) =
      one.shownWithin depth outer value := by
  induction depth generalizing outer value with
  | zero => rfl
  | succ depth ih =>
      have items {place : Nat} (here : value.place? = some (.sequence place)) :
          (two.sequence (moves.sequences.place place)).map (two.shownWithin depth
              (.sequence (moves.sequences.place place) :: outer.map (·.move moves))) =
            (one.sequence place).map (one.shownWithin depth (.sequence place :: outer)) := by
        rw [renamed.sequences _ place known here, List.map_map]
        exact List.map_congr_left fun item member =>
          ih (renamed.items _ place known here item member) (around_item apart around known here member)
      cases value with
      | tuple place =>
          simp only [Heap.shownWithin, Value.move, items rfl]
          exact if_congr (met_again apart around known rfl) rfl rfl
      | list place =>
          simp only [Heap.shownWithin, Value.move, items rfl]
          exact if_congr (met_again apart around known rfl) rfl rfl
      | map place =>
          simp only [Heap.shownWithin, Value.move, renamed.maps _ place known rfl, Entries.move,
            List.map_map]
          refine if_congr (met_again apart around known rfl) rfl ?_
          refine congrArg (Text.ofString "\x7b" ++ Text.join separator · ++ Text.ofString "\x7d") ?_
          refine List.map_congr_left fun entry member => ?_
          obtain ⟨key, held⟩ := renamed.entries _ place known rfl entry member
          have keys := ih key (around_entry around known rfl)
          have values := ih held (around_entry around known rfl)
          exact congrArg₂ (fun key value => key ++ Text.ofString ": " ++ value) keys values
      | _ => rfl

end

theorem shown {value : Value} (known : good value) :
    two.shown (value.move moves) = one.shown value := by
  obtain ⟨fuel, steadyOne, steadyTwo⟩ := renamed.steady
  obtain ⟨bare, height, apart⟩ := renamed.apart
  have same := renamed.shownWithin apart fuel known (⟨nofun, nofun⟩ : Around good bare height [] value)
  rw [← steadyTwo.shown _ ⟨value, known, rfl⟩, ← steadyOne.shown value known]
  exact same

theorem plain {value : Value} (known : good value) :
    two.plain (value.move moves) = one.plain value := by
  have shown := renamed.shown known
  cases value <;> first | rfl | exact shown

theorem spelledWithin (depth : Nat) {value : Value} (known : good value) :
    two.spelledWithin depth (value.move moves) = one.spelledWithin depth value := by
  induction depth generalizing value with
  | zero => rfl
  | succ depth ih =>
      have items {place : Nat} (here : value.place? = some (.sequence place)) :
          (two.sequence (moves.sequences.place place)).map (two.spelledWithin depth) =
            (one.sequence place).map (one.spelledWithin depth) := by
        rw [renamed.sequences _ place known here, List.map_map]
        exact List.map_congr_left fun item member =>
          ih (renamed.items _ place known here item member)
      have plain := renamed.plain known
      cases value with
      | tuple place => exact congrArg (Text.join (Text.ofString ",")) (items rfl)
      | list place => exact congrArg (Text.join (Text.ofString ",")) (items rfl)
      | _ => first | rfl | exact plain

theorem spelled {value : Value} (known : good value) :
    two.spelled (value.move moves) = one.spelled value := by
  obtain ⟨fuel, steadyOne, steadyTwo⟩ := renamed.steady
  rw [← steadyTwo.spelled _ ⟨value, known, rfl⟩, renamed.spelledWithin fuel known,
    steadyOne.spelled value known]

theorem member {value : Value} (known : good value) (name : Text) :
    two.member (value.move moves) name = (one.member value name).move moves := by
  have entry {place : Nat} (here : value.place? = some (.map place)) :
      (two.lookup (.text name) (two.entries (moves.maps.place place))).getD .null =
        ((one.lookup (.text name) (one.entries place)).getD .null).move moves := by
    rw [renamed.maps _ place known here, Heap.lookup_text, Heap.lookup_text, named_move]
    cases named (one.entries place) name <;> rfl
  cases value with
  | map place => exact congrArg Member.value (entry rfl)
  | object place => exact congrArg Member.value (entry rfl)
  | int number => exact (Member.move_ofInteger moves name number).symm
  | bool truth => exact (Member.move_ofInteger moves name truth.toInt).symm
  | float number => exact (Member.move_ofFloat moves name rfl).symm
  | notANumber serial => exact (Member.move_ofFloat moves name rfl).symm
  | text content => exact (Member.move_ofBool moves _).symm
  | list place => exact (Member.move_ofBool moves _).symm
  | tuple place => exact (Member.move_ofBool moves _).symm
  | _ => rfl

end Renamed

end Heap

end Formula
