import Formula.Proofs.Leading
import Formula.Proofs.Registry
import Formula.Proofs.Replaying

/-!
Two runs in one and the same heap, side by side: everything stays in its place, and what they do not come
upon stays as it is.
-/

namespace Formula

open Recursion (Closure)

/-- A scope that passes the test for another is at its place. -/
theorem Heap.Place.map_of_beq {scope : Nat} :
    ∀ place, (place == scope) = true → Heap.Place.map place = .map scope :=
  fun _ same => congrArg _ (beq_iff_eq.mp same)

/-- Where two runs start, some scopes apart that are no values and lie under a veil. Values that consist of
anything to avoid do not come up. -/
structure Footing where
  world : Recursion.World
  options : Options
  dialect : Nat
  scopes : Nat → Bool
  avoid : Heap.Place → Prop
  /-- The functions that the dialect trusts. -/
  trusted : Nat → Prop
  veil : Veil options
  exact : Prop
  early : Prop
  late : Prop
  effort : Nat
  inside : ∀ scope, scopes scope = true → scope < world.state.heap.maps.size
  avoided : ∀ scope, scopes scope = true → avoid (.map scope)

namespace Footing

variable (footing : Footing)

abbrev heap : Heap := footing.world.state.heap

/-- Values that may come up. -/
def Spares (value : Value) : Prop := footing.heap.Spares footing.avoid value

theorem mem_of_spares {value : Value} {place : Heap.Place} (spares : footing.Spares value)
    (here : value.place? = some place) : place ∈ footing.heap.places :=
  (spares place (.here here)).1

theorem maps_old {place : Nat} (old : footing.Spares (.map place) ∨ footing.scopes place = true) :
    place < footing.heap.maps.size :=
  old.elim (fun spares => Heap.map_mem_places_iff.mp (footing.mem_of_spares spares rfl))
    (footing.inside place)

theorem sequences_old {place : Nat} (spares : footing.Spares (.list place)) :
    place < footing.heap.sequences.size :=
  Heap.sequence_mem_places_iff.mp (footing.mem_of_spares spares rfl)

theorem unvalued {scope : Nat} (apart : footing.scopes scope = true) :
    ¬ footing.Spares (.map scope) :=
  fun spares => (spares _ (.here rfl)).2 (footing.avoided scope apart)

def moves : Renaming where
  sequences := .still footing.heap.sequences.size
  maps := .still footing.heap.maps.size
  functions := .still footing.world.closures.size
  functions_injective one other same := by simpa using same

theorem move_still (value : Value) : value.move footing.moves = value := by
  cases value <;> simp [Value.move, moves]

def mirror : Mirror where
  moves := footing.moves
  definitions := 0
  sequences place := footing.Spares (.list place)
  maps place := footing.Spares (.map place)
  scopes scope := footing.scopes scope = true
  functions _ := True
  trusted := footing.trusted
  bare _ := False
  height _ := 0
  origin := footing.heap
  options := footing.options
  dialect := footing.dialect
  veil := footing.veil
  still := True
  exact := footing.exact
  early := footing.early
  late := footing.late
  aligned := True
  alters := True
  effort := footing.effort
  sequences_old _ := footing.sequences_old
  sequences_below place spares := by
    rw [moves, Shift.place_still]
    exact footing.sequences_old spares
  sequences_apart one other _ _ same := by simpa [moves] using same
  bare_known _ := False.elim
  maps_old _ := footing.maps_old
  maps_below place old := by
    rw [moves, Shift.place_still]
    exact footing.maps_old old
  maps_apart one other _ _ same := by simpa [moves] using same
  unvalued _ := footing.unvalued
  uncounted _ := rfl
  trusted_known _ _ := trivial
  steady _ := ⟨footing.move_still, rfl, fun _ => id⟩

/-- The stage at the start. -/
def stage : footing.mirror.Stage where
  sequences := footing.heap.sequences.size
  maps := footing.heap.maps.size
  veiled := footing.scopes
  sequences_based := Nat.le_refl _
  maps_based := Nat.le_refl _
  unveiled scope spares := by
    by_contra apart
    exact footing.unvalued (eq_true_of_ne_false apart) spares
  functions := footing.world.closures.size
  functions_based := Nat.le_refl _

variable {footing}

theorem move_value (value : Value) : value.move footing.mirror.moves = value := footing.move_still value

theorem move_values (values : List Value) : values.map (·.move footing.mirror.moves) = values := by
  simp [move_value]

theorem move_failure (failure : Failure) : failure.move footing.mirror.moves = failure := by
  unfold Failure.move
  split <;> simp only [move_value]

theorem move_entries (entries : Entries) : entries.move footing.mirror.moves = entries := by
  simp [Entries.move, move_value]

/-- Values that may come up at the start are known. -/
theorem knows_of_spares {value : Value} (spares : footing.Spares value) (world : footing.mirror.World) :
    world.Knows value := by
  cases value with
  | tuple place => exact .inl (spares.congr rfl)
  | list place => exact .inl spares
  | map place => exact spares
  | object place => exact spares.congr rfl
  | builtin function => exact .inl trivial
  | defined place => exact .inl trivial
  | _ => trivial

theorem spares_of_hasSequence {place : Nat} (has : footing.stage.HasSequence place) :
    footing.Spares (.list place) :=
  has.resolve_right fun new => Nat.not_lt.mpr new.1 new.2

theorem holds_of_spares {value : Value} (spares : footing.Spares value) : footing.mirror.Holds value :=
  .inr ⟨trivial, knows_of_spares spares⟩

/-- A term may come up where no veil lies if its values may. -/
theorem fits_of_spares {term : Term} (ordinary : term.ordinary = true)
    (literals : ∀ value, .literal value ∈ term.code.contents → footing.Spares value) :
    footing.mirror.Fits (fun _ => False) false term where
  ordinary := ordinary
  contents instruction member := by
    cases instruction with
    | literal value => exact holds_of_spares (literals value member)
    | name word => exact .inr ⟨.inl trivial, .inl nofun⟩
    | target word => exact nofun
    | _ => trivial
  assigned _ _ := nofun

/-- A function that may be called. -/
structure Admits (footing : Footing) (closure : Closure) : Prop where
  dialect : closure.dialect = footing.dialect
  scope : footing.Spares (.map closure.scope) ∨
    footing.scopes closure.scope = true ∧ footing.veil.lasts = false
  ordinary : closure.body.ordinary = true
  literals : ∀ value, .literal value ∈ closure.body.code.contents → footing.Spares value

/-- What the dialect must be like: its functions are standard ones, and those of expressions. -/
structure Ready (footing : Footing) : Prop where
  operates : (footing.world.state.dialect footing.dialect).Operates
  options : (footing.world.state.dialect footing.dialect).options = footing.options
  standards : ∀ word, standardFunctions.get? word ≠ none →
    (footing.world.state.dialect footing.dialect).functions.get? word ≠ none
  entries : ∀ entry ∈ (footing.world.state.dialect footing.dialect).functions,
    entry ∈ standardFunctions ∨ ∃ serial place, entry = (registeredName serial, .defined place) ∧
      serial < footing.world.state.definitions ∧ footing.trusted place
  functions : ∀ place, footing.trusted place → ∃ closure, footing.world.closures[place]? = some closure ∧
    footing.Admits closure

/-- A world that differs at most in the scopes under the veil. -/
structure Beside (footing : Footing) (other : Recursion.World) : Prop where
  sequences : other.state.heap.sequences = footing.heap.sequences
  size : other.state.heap.maps.size = footing.heap.maps.size
  maps : ∀ place, footing.scopes place = false →
    other.state.heap.entries place = footing.heap.entries place
  scopes : ∀ scope, footing.scopes scope = true → footing.stage.Alike true (footing.heap.entries scope)
    (other.state.heap.entries scope)
  dialects : other.state.dialects = footing.world.state.dialects
  definitions : other.state.definitions = footing.world.state.definitions
  seed : other.state.seed = footing.world.state.seed
  closures : other.closures = footing.world.closures

theorem Admits.pairs {closure : Closure} (admits : footing.Admits closure) :
    footing.stage.Pairs closure closure := by
  have under : footing.mirror.inner (footing.stage.veiled closure.scope) = false := by
    rcases admits.scope with spares | ⟨-, lasts⟩
    · rw [footing.stage.unveiled closure.scope spares]
      rfl
    · have never : footing.mirror.veil.lasts = false := lasts
      rw [Mirror.inner, never, Bool.and_false]
  refine ⟨rfl, rfl, admits.dialect, admits.dialect, ?_, (Shift.place_still ..).symm, ?_, ?_⟩
  · exact admits.scope.imp_right fun apart => .inl apart.1
  · rw [under]
    intro _ _ never
    cases never
  · rw [under]
    exact (fits_of_spares admits.ordinary admits.literals).twins

variable {other : Recursion.World} (ready : footing.Ready) (beside : footing.Beside other)

theorem Beside.reflects (beside : footing.Beside other) :
    footing.stage.Reflects footing.heap other.state.heap where
  sizeSequences := rfl
  sizeSequencesTwo := by
    rw [beside.sequences]
    exact (Shift.place_still ..).symm
  sizeMaps := rfl
  sizeMapsTwo := beside.size.trans (Shift.place_still ..).symm
  sequences place _ := by
    have same : footing.mirror.moves.sequences.place place = place := Shift.place_still ..
    rw [move_values, same, Heap.sequence, beside.sequences]
    rfl
  items place has item member :=
    knows_of_spares ((spares_of_hasSequence has).item rfl member) _
  maps place spares := by
    rw [move_entries]
    have same : footing.mirror.moves.maps.place place = place := Shift.place_still ..
    rw [same, beside.maps place (footing.stage.unveiled place spares)]
  entries place spares entry member :=
    have both := Heap.Spares.entry spares rfl member
    ⟨knows_of_spares both.1 _, knows_of_spares both.2 _⟩
  scopes scope hides := by
    have apart : footing.scopes scope = true :=
      hides.resolve_right fun new => Nat.not_lt.mpr new.1 new.2
    have same : footing.mirror.moves.maps.place scope = scope := Shift.place_still ..
    have veiled : footing.stage.veiled scope = true := apart
    rw [same, veiled]
    exact beside.scopes scope apart
  bare _ := False.elim
  flat := .inl trivial
  keptSequences _ _ _ := rfl
  keptMaps _ _ _ _ := rfl

include ready in
theorem Ready.fresh {entry : Text × Value}
    (member : entry ∈ (footing.world.state.dialect footing.dialect).functions) {serial : Nat}
    (later : footing.world.state.definitions ≤ serial) : entry.1 ≠ registeredName serial := by
  rcases ready.entries entry member with standard | ⟨number, place, rfl, earlier, -⟩
  · exact standard_unregistered standard serial
  · intro same
    have equal := registeredName_injective same
    omega

include ready beside

/-- At the start the worlds mirror each other. -/
theorem mirrors : footing.stage.Mirrors footing.world other := by
  have dialect : other.state.dialect footing.mirror.dialect =
      footing.world.state.dialect footing.dialect := by
    rw [State.dialect, State.dialect, beside.dialects]
    rfl
  constructor
  · exact beside.reflects
  · rw [dialect]
    refine ⟨ready.operates, ready.operates, ready.options, ready.options, fun word _ => ?_,
      ready.standards, fun entry member => ?_, fun entry member => ?_, fun value _ _ => ?_⟩
    · simp only [move_value, Option.map_id']
      rfl
    · refine (ready.entries entry member).imp_right ?_
      rintro ⟨serial, place, same, _, trusted⟩
      exact ⟨serial, place, same, .inl trusted⟩
    · refine (ready.entries entry member).imp_right ?_
      rintro ⟨serial, place, same, _⟩
      exact ⟨place, serial, same⟩
    · rw [move_value]
      rfl
  · exact fun entry member serial later => ready.fresh member later
  · rw [dialect, beside.definitions]
    exact fun entry member serial later => ready.fresh member later
  · exact beside.seed
  · exact beside.definitions
  · rfl
  · rw [beside.closures]
    exact (Shift.place_still ..).symm
  · intro place has
    have trusted : footing.trusted place := has.resolve_right fun new => Nat.not_lt.mpr new.1 new.2
    obtain ⟨closure, found, admits⟩ := ready.functions place trusted
    refine ⟨closure, closure, found, ?_, admits.pairs⟩
    rw [beside.closures]
    exact (congrArg _ (Shift.place_still ..)).trans found

omit ready beside

/-- Where two runs side by side that came to an end have arrived: at the same outcome, in worlds that mirror
each other. -/
structure Arrives (footing : Footing) (outcome : Except Failure Value) (one two : Recursion.World)
    (later : footing.mirror.Stage) : Prop where
  reaches : footing.stage.Reaches later
  mirrors : later.Mirrors one two
  knows : ∀ value, outcome = .ok value → later.Knows value

section

open Mirror.Stage (Ends Same)

variable {left right : Option (Except Failure Value × Recursion.World)} {one two : Recursion.World}
  {outcome : Except Failure Value} (ends : footing.stage.Ends Same left right)

include ends

theorem arrives_left (sure : ¬ footing.late) (found : left = some (outcome, one)) :
    ∃ two later, right = some (outcome, two) ∧ footing.Arrives outcome one two later := by
  subst found
  cases ends with
  | late allowed => exact (sure allowed).elim
  | ok reaches mirrors same =>
      obtain ⟨rfl, known⟩ := same
      refine ⟨_, _, by rw [move_value], reaches, mirrors, ?_⟩
      rintro value ⟨⟩
      exact known
  | error reaches mirrors fails => exact ⟨_, _, by rw [fails.moved, move_failure], reaches, mirrors, nofun⟩

theorem arrives_right (sure : ¬ footing.early) (found : right = some (outcome, two)) :
    ∃ one later, left = some (outcome, one) ∧ footing.Arrives outcome one two later := by
  subst found
  cases ends with
  | early allowed => exact (sure allowed).elim
  | ok reaches mirrors same =>
      obtain ⟨rfl, known⟩ := same
      refine ⟨_, _, by rw [move_value], reaches, mirrors, ?_⟩
      rintro _ ⟨⟩
      rwa [move_value]
  | error reaches mirrors fails => exact ⟨_, _, by rw [fails.moved, move_failure], reaches, mirrors, nofun⟩

end

/-- Scopes under the veil are still alike. -/
theorem Arrives.alike {outcome : Except Failure Value} {one two : Recursion.World}
    {later : footing.mirror.Stage} (arrives : footing.Arrives outcome one two later) {scope : Nat}
    (apart : footing.scopes scope = true) :
    later.Alike true (one.state.heap.entries scope) (two.state.heap.entries scope) := by
  have alike := arrives.mirrors.heaps.scopes scope (.inl apart)
  have same : footing.mirror.moves.maps.place scope = scope := Shift.place_still ..
  have veiled : later.veiled scope = true :=
    (arrives.reaches.data.veiled scope (footing.inside scope apart)).trans apart
  rwa [veiled, same] at alike

/-- Both heaps share what is known. -/
theorem Arrives.shares {outcome : Except Failure Value} {one two : Recursion.World}
    {later : footing.mirror.Stage} (arrives : footing.Arrives outcome one two later) {value : Value}
    (known : later.Knows value) : one.compiled.heap.Shares two.compiled.heap value := by
  have shows := arrives.mirrors.heaps.shows known
  have shares : one.state.heap.Shares two.state.heap value := by
    refine ⟨fun place leads => ?_, fun place leads => ?_⟩
    · have same := shows.sequences place leads
      rwa [move_values, show footing.mirror.moves.sequences.place place = place from
        Shift.place_still ..] at same
    · have same := shows.maps place leads
      rwa [move_entries, show footing.mirror.moves.maps.place place = place from
        Shift.place_still ..] at same
  exact shares.withFunctions _ _

/-- Functions of before are the same on both sides, and new ones differ in their bodies only. -/
theorem Arrives.signatures {outcome : Except Failure Value} {one two : Recursion.World}
    {later : footing.mirror.Stage} (arrives : footing.Arrives outcome one two later)
    (old : ∀ place function, footing.world.compiled.heap.function? place = some function →
      one.compiled.heap.function? place = some function ∧ two.compiled.heap.function? place = some function) :
    two.compiled.heap.functions.map (·.signature) = one.compiled.heap.functions.map (·.signature) := by
  have place (known : Nat) : footing.mirror.moves.functions.place known = known := Shift.place_still ..
  have sizes : two.closures.size = one.closures.size := by
    rw [arrives.mirrors.size, arrives.mirrors.sizeTwo, place]
  refine Array.ext' ?_
  refine List.ext_getElem? fun known => ?_
  simp only [Array.toList_map, List.getElem?_map, Array.getElem?_toList]
  change (two.compiled.heap.function? known).map _ = (one.compiled.heap.function? known).map _
  rcases Nat.lt_or_ge known footing.world.closures.size with before | after
  · obtain ⟨left, right⟩ := old known _ ((Recursion.compiled_function? ..).trans
      (congrArg (Option.map _) (Array.getElem?_eq_getElem before)))
    rw [left, right]
  · rw [Recursion.compiled_function?, Recursion.compiled_function?]
    rcases Nat.lt_or_ge known one.closures.size with inside | beyond
    · obtain ⟨closure, other, found, foundTwo, pairs⟩ := arrives.mirrors.closures known
        (.inr ⟨after, arrives.mirrors.size ▸ inside⟩)
      rw [place] at foundTwo
      have scope : footing.mirror.moves.maps.place closure.scope = closure.scope := Shift.place_still ..
      rw [found, foundTwo]
      simp [Recursion.Closure.compiled, DefinedFunction.signature, pairs.name, pairs.parameters,
        pairs.dialect, pairs.dialectTwo, pairs.scopeTwo, scope]
    · rw [Array.getElem?_eq_none beyond, Array.getElem?_eq_none (sizes ▸ beyond)]

/-- Terms that come to the same, in a scope under the veil. -/
theorem ends_run {one two : Term} {scope spare : Nat} (ready : footing.Ready) (beside : footing.Beside other)
    (enough : footing.late ∨ footing.effort ≤ spare) (early : footing.early ∨ spare = 0)
    (apart : footing.scopes scope = true) (twins : footing.mirror.Twins true one two) (depth : Nat) :
    footing.stage.Ends Mirror.Stage.Same
      (Recursion.evaluate depth footing.dialect one scope footing.world)
      (Recursion.evaluate (depth + spare) footing.dialect two scope other) := by
  have veiled : footing.stage.veiled scope = true := apart
  have ran := (Mirror.Stage.follows_perform enough early depth).runs footing.stage scope _ _
    (.inr (.inl apart)) (.whole (veiled.symm ▸ twins)) _ _ (mirrors ready beside)
  have same : footing.mirror.moves.maps.place scope = scope := Shift.place_still ..
  rwa [same] at ran

/-- Calls of a function that the dialect trusts. -/
theorem ends_call {place spare : Nat} {arguments : List Value} (ready : footing.Ready)
    (beside : footing.Beside other) (enough : footing.late ∨ footing.effort ≤ spare)
    (early : footing.early ∨ spare = 0) (trusted : footing.trusted place)
    (spares : ∀ argument ∈ arguments, footing.Spares argument) (depth : Nat) :
    footing.stage.Ends Mirror.Stage.Same
      (Recursion.perform depth (.call (.defined place) arguments) footing.world)
      (Recursion.perform (depth + spare) (.call (.defined place) arguments) other) := by
  have trusts : footing.stage.Trusts (.defined place) := by
    rintro known ⟨⟩
    exact .inl trusted
  have known (argument : Value) (member : argument ∈ arguments) : footing.stage.Knows argument :=
    knows_of_spares (spares argument member) _
  have function : footing.stage.Knows (.defined place) := Or.inl trivial
  have called := (Mirror.Stage.follows_perform enough early depth).calls footing.stage _ _
    (.ordinary function known (.of_plain trusts rfl)) _ _ (mirrors ready beside)
  rw [move_value, move_values] at called
  exact Mirror.Stage.ends_weaken called fun _ _ _ _ answer => answer.1

/-- A dialect of a registry is ready if its functions may be called. -/
theorem ready_of_registers {known : List Options} {serials : List Nat}
    (registers : footing.world.compiled.Registers known serials)
    (created : known[footing.dialect]? = some footing.options)
    (trusted : ∀ place closure, footing.world.closures[place]? = some closure →
      closure.dialect = footing.dialect → footing.trusted place)
    (functions : ∀ place, footing.trusted place → ∃ closure,
      footing.world.closures[place]? = some closure ∧ footing.Admits closure) : footing.Ready := by
  have tables : footing.world.state.dialect footing.dialect = _ := registers.tables _ _ created
  refine ⟨?_, ?_, fun word standard => ?_, fun entry member => ?_, functions⟩
  · rw [tables]
    exact ⟨rfl, rfl, rfl⟩
  · rw [tables]
    rfl
  · rw [tables]
    exact fun none => standard (Option.or_eq_none_iff.mp (List.lookup_append.symm.trans none)).1
  · rw [tables] at member
    rcases List.mem_append.mp member with standard | added
    · exact .inl standard
    · obtain ⟨place, function, serial, found, numbered, own, rfl⟩ := mem_registered.mp added
      refine .inr ⟨serial, place, rfl, registers.below _ (List.mem_of_getElem? numbered), ?_⟩
      have held : footing.world.compiled.heap.function? place = some function := by
        rwa [Array.getElem?_toList] at found
      rw [Recursion.compiled_function?, Option.map_eq_some_iff] at held
      obtain ⟨closure, held, rfl⟩ := held
      exact trusted place closure held own

end Footing

end Formula
