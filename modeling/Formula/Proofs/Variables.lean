import Formula.Session
import Formula.Proofs.Contexts
import Formula.Proofs.Correctness
import Formula.Proofs.Product
import Formula.Proofs.Symbols

/-!
An expression depends on its variables only. Contexts are compared by what shows of them on every way into
them, whatever their places in the heap.
-/

namespace Formula

/-- Entries that are related part by part. -/
theorem forall₂_entries {related : Value → Value → Prop} {left right : Entries}
    (size : left.length = right.length)
    (parts : List.Forall₂ related (left.map (·.1) ++ left.map (·.2)) (right.map (·.1) ++ right.map (·.2))) :
    List.Forall₂ (fun entry other => related entry.1 other.1 ∧ related entry.2 other.2) left right := by
  have lengths : (left.map (·.1)).length = (right.map (·.1)).length := by simpa using size
  have keys := List.forall₂_take (left.map (·.1)).length parts
  have values := List.forall₂_drop (left.map (·.1)).length parts
  rw [List.take_left, lengths, List.take_left, List.forall₂_map_left_iff, List.forall₂_map_right_iff] at keys
  rw [List.drop_left, lengths, List.drop_left, List.forall₂_map_left_iff, List.forall₂_map_right_iff] at values
  clear parts lengths
  induction keys with
  | nil => exact .nil
  | cons key _ ih =>
      cases values with
      | cons value values => exact .cons ⟨key, value⟩ (ih (Nat.succ.inj size) values)

namespace Matching

open Heap (UnsharedContext)

/-- The places that are found on the same ways into two contexts, under some names. -/
def ofWays (one two : Heap) (left right : Nat) (names : List Text) : Matching where
  sequences here there := ∃ name ∈ names, ∃ steps value other, one.at? left name steps = some value ∧
    two.at? right name steps = some other ∧ value.place? = some (.sequence here) ∧
      other.place? = some (.sequence there)
  maps here there := ∃ name ∈ names, ∃ steps value other, one.at? left name steps = some value ∧
    two.at? right name steps = some other ∧ value.place? = some (.map here) ∧ other.place? = some (.map there)
  callables _ _ := False

section

variable {one two : Heap} {left right : Nat} {names : List Text} (plain : one.UnsharedContext left)
  (plainTwo : two.UnsharedContext right) (alike : ∀ name ∈ names, ∀ steps,
    (one.at? left name steps).map one.face = (two.at? right name steps).map two.face)

include alike

theorem face_ways {name : Text} (member : name ∈ names) {steps : List Nat} {value other : Value}
    (found : one.at? left name steps = some value) (foundTwo : two.at? right name steps = some other) :
    one.face value = two.face other := by
  have faces := alike name member steps
  rw [found, foundTwo] at faces
  exact Option.some.inj faces

include plain

/-- What is found on the same way into both contexts is the same. -/
theorem relates_ways {name : Text} (member : name ∈ names) (steps : List Nat) :
    Option.Rel (ofWays one two left right names).Relates (one.at? left name steps) (two.at? right name steps) := by
  have faces := alike name member steps
  cases found : one.at? left name steps with
  | none =>
      rw [found] at faces
      rw [Option.map_eq_none_iff.mp faces.symm]
      exact .none
  | some value =>
      rw [found] at faces
      obtain ⟨other, foundTwo, same⟩ := Option.map_eq_some_iff.mp faces.symm
      rw [foundTwo]
      refine .some ?_
      obtain ⟨holder, leads, held⟩ := Heap.held_of_at? found
      have data := plain.data holder leads value held
      -- Data of one kind is matched by this very way; else both are one scalar.
      cases value <;> cases other <;>
        first
          | exact .tuple ⟨name, member, steps, _, _, found, foundTwo, rfl, rfl⟩
          | exact .list ⟨name, member, steps, _, _, found, foundTwo, rfl, rfl⟩
          | exact .map ⟨name, member, steps, _, _, found, foundTwo, rfl, rfl⟩
          | exact .object ⟨name, member, steps, _, _, found, foundTwo, rfl, rfl⟩
          | (cases same <;> first | exact .scalar rfl | cases data)

/-- So are the things that it holds. -/
theorem held_ways {name : Text} (member : name ∈ names) {steps : List Nat} {value other : Value}
    (found : one.at? left name steps = some value) (foundTwo : two.at? right name steps = some other)
    {here there : Heap.Place} (place : value.place? = some here) (placeTwo : other.place? = some there)
    (size : (one.held here).length = (two.held there).length) :
    List.Forall₂ (ofWays one two left right names).Relates (one.held here) (two.held there) := by
  refine List.forall₂_iff_get.mpr ⟨size, fun index below belowTwo => ?_⟩
  have related := relates_ways plain alike member (steps ++ [index])
  rw [Heap.at?_snoc, Heap.at?_snoc, found, foundTwo, Option.bind_some, Option.bind_some, Heap.part?, Heap.part?,
    place, placeTwo, Option.bind_some, Option.bind_some, List.getElem?_eq_getElem below,
    List.getElem?_eq_getElem belowTwo] at related
  cases related with
  | some related => exact related

include plainTwo

/-- Contexts of plain data that show the same on every way under some names agree on these names. -/
theorem agrees_ofWays : (ofWays one two left right names).Agrees (· ∈ names) left right one two where
  between := {
    items := by
      rintro here there ⟨name, member, steps, value, other, found, foundTwo, place, placeTwo⟩
      exact held_ways plain alike member found foundTwo place placeTwo
        ((Heap.size_of_face (face_ways alike member found foundTwo)).1 _ _ place placeTwo)
    entries := by
      rintro here there ⟨name, member, steps, value, other, found, foundTwo, place, placeTwo⟩
      have size := (Heap.size_of_face (face_ways alike member found foundTwo)).2 _ _ place placeTwo
      exact forall₂_entries size (held_ways plain alike member found foundTwo place placeTwo
        (by simp [Heap.held, size]))
    callables := fun _ _ => False.elim
    left := {
      inside := fun _ ⟨_, _, _, _, _, _, found, _, place, _⟩ =>
        (plain.sound_sequence (Heap.leads_of_at? found place)).1
      insideMaps := fun _ ⟨_, _, _, _, _, _, found, _, place, _⟩ =>
        Heap.map_mem_places_iff.mp (plain.whole _ (Heap.leads_of_at? found place))
      founded := fun _ ⟨_, _, _, _, _, _, found, _, place, _⟩ =>
        (plain.sound_sequence (Heap.leads_of_at? found place)).2
      keys := fun _ ⟨_, _, _, _, _, _, found, _, place, _⟩ => plain.keys _ (Heap.leads_of_at? found place) }
    right := {
      inside := fun _ ⟨_, _, _, _, _, _, _, found, _, place⟩ =>
        (plainTwo.sound_sequence (Heap.leads_of_at? found place)).1
      insideMaps := fun _ ⟨_, _, _, _, _, _, _, found, _, place⟩ =>
        Heap.map_mem_places_iff.mp (plainTwo.whole _ (Heap.leads_of_at? found place))
      founded := fun _ ⟨_, _, _, _, _, _, _, found, _, place⟩ =>
        (plainTwo.sound_sequence (Heap.leads_of_at? found place)).2
      keys := fun _ ⟨_, _, _, _, _, _, _, found, _, place⟩ => plainTwo.keys _ (Heap.leads_of_at? found place) }
    mapsLeft := by
      rintro here other there ⟨name, member, steps, value, _, found, foundTwo, place, placeTwo⟩
        ⟨name', _, steps', value', _, found', foundTwo', place', placeTwo'⟩
      obtain ⟨rfl, rfl⟩ := plainTwo.unshared foundTwo foundTwo' placeTwo placeTwo'
      exact Heap.Place.map.inj (Heap.place_of_at? found found' place place')
    mapsRight := by
      rintro here there other ⟨name, member, steps, _, value, found, foundTwo, place, placeTwo⟩
        ⟨name', _, steps', _, value', found', foundTwo', place', placeTwo'⟩
      obtain ⟨rfl, rfl⟩ := plain.unshared found found' place place'
      exact Heap.Place.map.inj (Heap.place_of_at? foundTwo foundTwo' placeTwo placeTwo')
    sequencesLeft := by
      rintro here other there ⟨name, member, steps, value, _, found, foundTwo, place, placeTwo⟩
        ⟨name', _, steps', value', _, found', foundTwo', place', placeTwo'⟩
      by_cases together : name = name' ∧ steps = steps'
      · obtain ⟨rfl, rfl⟩ := together
        exact .inl (Heap.Place.sequence.inj (Heap.place_of_at? found found' place place'))
      · exact .inr (plainTwo.mapless foundTwo foundTwo' placeTwo placeTwo' together)
    sequencesRight := by
      rintro here there other ⟨name, member, steps, _, value, found, foundTwo, place, placeTwo⟩
        ⟨name', _, steps', _, value', found', foundTwo', place', placeTwo'⟩
      by_cases together : name = name' ∧ steps = steps'
      · obtain ⟨rfl, rfl⟩ := together
        exact .inl (Heap.Place.sequence.inj (Heap.place_of_at? foundTwo foundTwo' placeTwo placeTwo'))
      · exact .inr (plain.mapless found found' place place' together) }
  inside := plain.inside
  insideTwo := plainTwo.inside
  apart := by
    rintro there ⟨name, member, steps, value, _, found, _, place, _⟩
    obtain ⟨holder, leads, held⟩ := Heap.held_of_at? found
    exact plain.not_leads_back leads held (.here place)
  apartTwo := by
    rintro here ⟨name, member, steps, _, value, _, found, _, place⟩
    obtain ⟨holder, leads, held⟩ := Heap.held_of_at? found
    exact plainTwo.not_leads_back leads held (.here place)
  bound name member := by
    have related := relates_ways plain alike member []
    simpa [Heap.at?] using related

end

end Matching

/-- The functions of a state that is reached have terms for bodies. -/
theorem Reached.closures {state : State} (reached : Reached state) :
    ∃ closures : Array Recursion.Closure, closures.map Recursion.Closure.compiled = state.heap.functions := by
  obtain ⟨world, rfl⟩ := reached.world
  exact ⟨world.closures, rfl⟩

/-- The variables of an expression but for reserved names and for operators that are switched on. -/
def Session.inputs (session : Session) (expression : Expression) : List Text :=
  let dialect := session.state.dialect expression.dialect
  (expression.freeNames session false).filter fun name =>
    !(Text.isReserved name || (dialect.unary.holds name && dialect.enables name))

/-- What an expression reads is among its inputs, or means the same in every context. -/
theorem mem_inputs {session : Session} {dialect : Nat} {options : Options} {source : Text} {term : Term}
    (standard : session.state.dialect dialect = .standard options)
    (parsed : parse (.standard options) source = .ok term) {word : Text}
    (reads : .name word ∈ term.code.contents) :
    word ∈ session.inputs ⟨term.code, dialect⟩ ∨ options.Settles word := by
  have among := (Program.mem_names (parse_disciplined parsed)).mpr (.inl reads)
  by_cases settles : options.Settles word
  · exact .inr settles
  · obtain ⟨unreserved, noFunction, noOperator⟩ : Text.isReserved word = false ∧
        standardFunctions.get? word = none ∧
          ((standardUnary.get? word).isSome && (Dialect.standard options).enables word) = false := by
      simpa [Options.Settles, Option.isSome_iff_ne_none] using settles
    refine .inl (List.mem_filter.mpr ⟨List.mem_filter.mpr ⟨among, ?_⟩, ?_⟩)
    · rw [standard]
      change (!(standardFunctions.get? word).isSome) = true
      rw [noFunction]
      rfl
    · simp only [standard, unreserved, Bool.false_or]
      change (!((standardUnary.get? word).isSome && (Dialect.standard options).enables word)) = true
      rw [noOperator]
      rfl

/-- Two contexts that bind one of two names alike. -/
def twoContexts : Session where
  state :=
    { heap := { maps := #[[(.text (Text.ofString "x"), .int 2)],
        [(.text (Text.ofString "w"), .int 9), (.text (Text.ofString "x"), .int 2)]] }
      dialects := #[.standard {}] }

/-- Two contexts with one mapping each, of the same entries in another order. -/
def inOrder : State where
  heap := { maps := #[[(.text (Text.ofString "m"), .map 2)], [(.text (Text.ofString "m"), .map 3)],
    [(.text (Text.ofString "a"), .int 1), (.text (Text.ofString "b"), .int 2)],
    [(.text (Text.ofString "b"), .int 2), (.text (Text.ofString "a"), .int 1)]] }
  dialects := #[.standard {}]

end Formula
