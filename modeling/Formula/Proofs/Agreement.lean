import Formula.Proofs.Template

/-!
Two copies of one template after a run: what they hold is matched through the template.
-/

namespace Formula

namespace Mirror.World

variable {mirror : Mirror} {world : mirror.World} {one two : Heap} (reflects : world.Reflects one two)

include reflects

/-- A bare sequence leads to no mapping where it is moved either. -/
theorem Reflects.mapless {place : Nat} (bare : mirror.bare place) :
    two.Mapless (mirror.moves.sequences.place place) := by
  intro goal leads
  have never {value : Value} (leads : two.Leads (.map goal) value) : ∀ place, mirror.bare place →
      value.place? = some (.sequence (mirror.moves.sequences.place place)) → False := by
    induction leads with
    | here here =>
        intro place _ there
        rw [here] at there
        cases there
    | @item value item known here member leads ih =>
        intro place bare there
        rw [here] at there
        cases there
        rw [reflects.sequences place (.inl (mirror.bare_known place bare))] at member
        obtain ⟨origin, among, rfl⟩ := List.mem_map.mp member
        cases inner : origin.place? with
        | none =>
            refine Heap.not_leads_of_placeless ?_ leads
            rw [Value.place?_move, inner]
            rfl
        | some found =>
            obtain ⟨next, rfl, bareNext, -⟩ := reflects.bare place bare origin among found inner
            refine ih next bareNext ?_
            rw [Value.place?_move, inner]
            rfl
    | key here _ _ _ =>
        intro place _ there
        rw [here] at there
        cases there
    | entry here _ _ _ =>
        intro place _ there
        rw [here] at there
        cases there
  exact never leads place bare rfl

/-- What has come up is sound where it is moved. -/
theorem Reflects.sound (moving : ¬ mirror.still) :
    two.Sound (fun there => ∃ place, world.HasSequence place ∧ mirror.moves.sequences.place place = there)
      fun there => ∃ place, mirror.maps place ∧ mirror.moves.maps.place place = there where
  inside := by
    rintro _ ⟨place, has, rfl⟩
    exact (reflects.sequence_inside has).2
  insideMaps := by
    rintro _ ⟨place, has, rfl⟩
    exact (reflects.scope_inside (.inl has)).2
  founded := by
    rintro _ ⟨place, has, rfl⟩
    obtain ⟨bound, nested⟩ := (reflects.flat.resolve_left moving).1 place has
    have known : world.Knows (.list place) := has
    exact ⟨bound, reflects.nested_move known nested⟩
  keys := by
    rintro _ ⟨place, has, rfl⟩ entry member
    rw [reflects.maps place has] at member
    obtain ⟨origin, among, rfl⟩ := List.mem_map.mp member
    exact reflects.hashable_move (reflects.entries place has origin among).1
      ((reflects.flat.resolve_left moving).2 place has origin among)

end Mirror.World

namespace Template

open Recursion (Closure World)

variable {template : Template} {one two last first second : World} {left right : Nat → Nat}
  {copies : template.Copies one left} {serves : template.Serves one}
  {copiesTwo : template.Copies two right} {servesTwo : template.Serves two}
  {later : (mirror copies serves).Stage} {laterTwo : (mirror copiesTwo servesTwo).Stage}

/-- What has come up on the template, where two copies have it. -/
def matching (later : (mirror copies serves).Stage) (copiesTwo : template.Copies two right)
    (servesTwo : template.Serves two) : Matching where
  sequences here there := ∃ place, later.HasSequence place ∧
    (mirror copies serves).moves.sequences.place place = here ∧
      (mirror copiesTwo servesTwo).moves.sequences.place place = there
  maps here there := ∃ place, template.maps place ∧
    (mirror copies serves).moves.maps.place place = here ∧
      (mirror copiesTwo servesTwo).moves.maps.place place = there
  callables here there := ∃ value : Value, value.isCallable = true ∧ later.Knows value ∧
    value.move (mirror copies serves).moves = here ∧ value.move (mirror copiesTwo servesTwo).moves = there

/-- What is known is matched. -/
theorem relates {value : Value} (known : later.Knows value) : (matching later copiesTwo servesTwo).Relates
    (value.move (mirror copies serves).moves) (value.move (mirror copiesTwo servesTwo).moves) := by
  cases value with
  | tuple place => exact .tuple ⟨place, known, rfl, rfl⟩
  | list place => exact .list ⟨place, known, rfl, rfl⟩
  | map place => exact .map ⟨place, known, rfl, rfl⟩
  | object place => exact .object ⟨place, known, rfl, rfl⟩
  | builtin function => exact .callable ⟨.builtin function, rfl, known, rfl, rfl⟩
  | defined place => exact .callable ⟨.defined place, rfl, known, rfl, rfl⟩
  | host serial name => exact .callable ⟨.host serial name, rfl, known, rfl, rfl⟩
  | _ => exact .scalar rfl

theorem fails {failure : Failure} (known : failure.Holds later.Knows) : (matching later copiesTwo servesTwo).Fails
    (failure.move (mirror copies serves).moves) (failure.move (mirror copiesTwo servesTwo).moves) := by
  unfold Failure.Holds at known
  split at known
  · exact .notFunction (relates known)
  · exact .memberOf (relates known.1) (relates known.2)
  · rw [Failure.move_bare _ known, Failure.move_bare _ known]
    exact .bare known

/-- What a copy has of a function of the template. -/
theorem closure_alike (mirrors : later.Mirrors last first) (place : Nat) :
    (first.closures[(mirror copies serves).moves.functions.place place]?).map
        (fun closure => (closure.name, closure.parameters, closure.body)) =
      (last.closures[place]?).map fun closure => (closure.name, closure.parameters, closure.body) := by
  rcases Nat.lt_or_ge place later.functions with inside | beyond
  · obtain ⟨closure, other, found, foundTwo, pairs⟩ := mirrors.closures place (.inr ⟨Nat.zero_le _, inside⟩)
    rw [found, foundTwo]
    simp only [Option.map_some, pairs.name, pairs.parameters, pairs.bodies.same id]
  · have size : first.closures.size ≤ (mirror copies serves).moves.functions.place place := by
      rw [mirrors.sizeTwo, Shift.place_new (Nat.zero_le _), Shift.place_new (Nat.zero_le _)]
      exact Nat.add_le_add_left (Nat.sub_le_sub_right beyond _) _
    rw [Array.getElem?_eq_none size, Array.getElem?_eq_none (mirrors.size.symm ▸ beyond)]

theorem compiled_alike (world : World) (place : Nat) :
    (world.compiled.heap.function? place).map
        (fun function => (function.name, function.parameters, function.body)) =
      ((world.closures[place]?).map fun closure => (closure.name, closure.parameters, closure.body)).map
        fun closure => (closure.1, closure.2.1.map .text, .suspended closure.2.2.code) := by
  rw [Recursion.compiled_function?, Option.map_map, Option.map_map]
  rfl

section

variable (mirrors : later.Mirrors last first) (mirrorsTwo : laterTwo.Mirrors last second)

include mirrors mirrorsTwo

theorem sameFunction {value : Value} (callable : value.isCallable = true) :
    first.compiled.heap.SameFunction second.compiled.heap (value.move (mirror copies serves).moves)
      (value.move (mirror copiesTwo servesTwo).moves) := by
  cases value with
  | builtin function => exact .builtin function
  | host serial name => exact .host serial name
  | defined place =>
      refine .defined ?_
      rw [compiled_alike, compiled_alike, closure_alike mirrors, closure_alike mirrorsTwo]
  | _ => cases callable

/-- What has come up on the template has come up whichever copy stands beside it. -/
theorem hasSequence_two {place : Nat} (has : later.HasSequence place) : laterTwo.HasSequence place := by
  refine has.imp_right fun ⟨new, below⟩ => ⟨new, ?_⟩
  rw [← mirrorsTwo.heaps.sizeSequences, mirrors.heaps.sizeSequences]
  exact below

theorem between : (matching later copiesTwo servesTwo).Between first.compiled.heap second.compiled.heap where
  items := by
    rintro _ _ ⟨place, has, rfl, rfl⟩
    have hasTwo := hasSequence_two mirrors mirrorsTwo has
    have items := mirrors.heaps.sequences place has
    have itemsTwo := mirrorsTwo.heaps.sequences place hasTwo
    change List.Forall₂ _ (first.state.heap.sequence _) (second.state.heap.sequence _)
    rw [items, itemsTwo, List.forall₂_map_left_iff, List.forall₂_map_right_iff, List.forall₂_same]
    exact fun item member => relates (mirrors.heaps.items place has item member)
  entries := by
    rintro _ _ ⟨place, has, rfl, rfl⟩
    have entries := mirrors.heaps.maps place has
    have entriesTwo := mirrorsTwo.heaps.maps place has
    change List.Forall₂ _ (first.state.heap.entries _) (second.state.heap.entries _)
    rw [entries, entriesTwo, Entries.move, Entries.move, List.forall₂_map_left_iff, List.forall₂_map_right_iff,
      List.forall₂_same]
    exact fun entry member => (mirrors.heaps.entries place has entry member).imp relates relates
  callables := by
    rintro _ _ ⟨value, callable, -, rfl, rfl⟩
    exact sameFunction mirrors mirrorsTwo callable
  left := by
    refine ((mirrors.heaps.sound id).withFunctions _).mono ?_ ?_
    · rintro here ⟨there, place, has, same, _⟩
      exact ⟨place, has, same⟩
    · rintro here ⟨there, place, has, same, _⟩
      exact ⟨place, has, same⟩
  right := by
    refine ((mirrorsTwo.heaps.sound id).withFunctions _).mono ?_ ?_
    · rintro there ⟨here, place, has, _, same⟩
      exact ⟨place, hasSequence_two mirrors mirrorsTwo has, same⟩
    · rintro there ⟨here, place, has, _, same⟩
      exact ⟨place, has, same⟩
  mapsLeft := by
    rintro _ _ _ ⟨place, has, rfl, rfl⟩ ⟨other, hasOther, rfl, same⟩
    have scope : laterTwo.HasScope place := .inl has
    rw [scope.apart (.inl hasOther) same.symm]
  mapsRight := by
    rintro _ _ _ ⟨place, has, rfl, rfl⟩ ⟨other, hasOther, same, rfl⟩
    have scope : later.HasScope place := .inl has
    rw [scope.apart (.inl hasOther) same.symm]
  sequencesLeft := by
    rintro _ _ _ ⟨place, has, rfl, rfl⟩ ⟨other, hasOther, rfl, same⟩
    have hasTwo := hasSequence_two mirrors mirrorsTwo has
    rcases hasTwo.apart (hasSequence_two mirrors mirrorsTwo hasOther) same.symm with rfl | ⟨bare, -⟩
    · exact .inl rfl
    · exact .inr ((mirrorsTwo.heaps.mapless bare).withFunctions _)
  sequencesRight := by
    rintro _ _ _ ⟨place, has, rfl, rfl⟩ ⟨other, hasOther, same, rfl⟩
    rcases has.apart hasOther same.symm with rfl | ⟨bare, -⟩
    · exact .inl rfl
    · exact .inr ((mirrors.heaps.mapless bare).withFunctions _)

end

/-- The scope of the template in a copy. -/
theorem place_scope (copies : template.Copies one left) (serves : template.Serves one) :
    (mirror copies serves).moves.maps.place template.scope = left template.scope :=
  place_map one left (.inr rfl)

theorem scope_inside (mirrors : later.Mirrors last first) : left template.scope < first.state.heap.maps.size := by
  have inside := (mirrors.heaps.scope_inside (.inr (.inl rfl : later.Hides template.scope))).2
  rwa [place_scope copies serves] at inside

/-- In a copy the scope is no part of the data. -/
theorem unmatched (later : (mirror copies serves).Stage) {place : Nat} (has : template.maps place) :
    (mirror copies serves).moves.maps.place place ≠ left template.scope := by
  intro same
  have scope : later.HasScope place := .inl has
  rw [← place_scope copies serves] at same
  exact template.unvalued (scope.apart (.inr (.inl rfl)) same ▸ has)

/-- What a shared name is bound to in a copy. -/
theorem shared_alike (mirrors : later.Mirrors last first) {name : Text} (shares : template.shares name) :
    named (first.state.heap.entries (left template.scope)) name =
        (named (last.state.heap.entries template.scope) name).map (·.move (mirror copies serves).moves) ∧
      ∀ value, named (last.state.heap.entries template.scope) name = some value → later.Knows value := by
  have alike := mirrors.heaps.scopes template.scope (.inl rfl)
  rw [place_scope copies serves] at alike
  exact ⟨alike.same name fun _ => shares, fun value => alike.known name value fun _ => shares⟩

theorem agrees (mirrors : later.Mirrors last first) (mirrorsTwo : laterTwo.Mirrors last second) :
    (matching later copiesTwo servesTwo).Agrees template.shares (left template.scope) (right template.scope)
      first.compiled.heap second.compiled.heap where
  between := between mirrors mirrorsTwo
  inside := scope_inside mirrors
  insideTwo := scope_inside mirrorsTwo
  apart := fun _ ⟨_, has, same, _⟩ => unmatched later has same
  apartTwo := fun _ ⟨_, has, _, same⟩ => unmatched laterTwo has same
  bound name shares := by
    obtain ⟨found, known⟩ := shared_alike mirrors shares
    obtain ⟨foundTwo, -⟩ := shared_alike mirrorsTwo shares
    change Option.Rel _ (named (first.state.heap.entries _) name) (named (second.state.heap.entries _) name)
    rw [found, foundTwo]
    cases held : named (last.state.heap.entries template.scope) name with
    | none => exact .none
    | some value => exact .some (relates (known value held))

/-- What a term comes to on the one copy, it comes to on the other. -/
theorem copies_agree (copies : template.Copies one left) (serves : template.Serves one)
    (copiesTwo : template.Copies two right) (servesTwo : template.Serves two) {term : Term}
    (admits : template.Admits term) (depth : Nat) : Matching.Ends template.shares (left template.scope) (right template.scope)
      (Machine.perform depth (.run template.dialect term.code (left template.scope)) one.compiled)
      (Machine.perform depth (.run template.dialect term.code (right template.scope)) two.compiled) := by
  have machine (world : World) (scope : Nat) :
      Machine.perform depth (.run template.dialect term.code scope) world.compiled =
        (Recursion.evaluate depth template.dialect term scope world).map
          fun came => (came.1, came.2.compiled) := by
    have tracked := Recursion.follows_perform depth (.run template.dialect (.whole term) scope) world
    refine tracked.trans ?_
    change Option.map _ (Recursion.evaluate depth template.dialect term scope world) = _
    rcases Recursion.evaluate depth template.dialect term scope world with _ | ⟨_ | value, after⟩ <;> rfl
  have endsOne := ends copies serves admits depth
  have endsTwo := ends copiesTwo servesTwo admits depth
  rw [machine, machine]
  revert endsOne endsTwo
  generalize Recursion.evaluate depth template.dialect term template.scope template.world = came
  generalize Recursion.evaluate depth template.dialect term (left template.scope) one = cameOne
  generalize Recursion.evaluate depth template.dialect term (right template.scope) two = cameTwo
  intro endsOne endsTwo
  cases endsOne with
  | spent =>
      cases endsTwo with
      | spent => exact .spent
      | early allowed => exact allowed.elim
      | late allowed => exact allowed.elim
  | early allowed => exact allowed.elim
  | late allowed => exact allowed.elim
  | ok _ mirrors same =>
      obtain ⟨rfl, known⟩ := same
      cases endsTwo with
      | late allowed => exact allowed.elim
      | ok _ mirrorsTwo sameTwo =>
          obtain ⟨rfl, -⟩ := sameTwo
          exact .ok (agrees mirrors mirrorsTwo) (relates known)
  | error _ mirrors failed =>
      obtain ⟨rfl, known⟩ := failed
      cases endsTwo with
      | late allowed => exact allowed.elim
      | error _ mirrorsTwo failedTwo =>
          obtain ⟨rfl, -⟩ := failedTwo
          exact .error (agrees mirrors mirrorsTwo) (fails known)

end Template

end Formula
