import Formula.Proofs.Correctness
import Formula.Proofs.Elementary
import Formula.Proofs.Preservation
import Formula.Proofs.Footing
import Formula.Proofs.Symbols

/-!
Substitution is sound: an elementary program in the place of a name that is bound to its value changes
nothing, wherever the name stands and whenever it is read.
-/

namespace Formula

open Machine

/-- A name that means nothing but what its context binds it to: it is no function, no operator that is
switched on, not reserved, and none of those under which functions are registered. -/
structure Options.Leaves (options : Options) (name : Text) : Prop where
  function : standardFunctions.get? name = none
  operator : standardUnary.get? name = none ∨ (Dialect.standard options).enables name = false
  proper : Text.isReserved name = false
  unregistered : Text.startsWith (Text.ofString "lambda_") name = false

/-- Entries but for those of some names hold nothing under these. -/
theorem named_besides_none {names : Text → Bool} {name : Text} (covered : names name = true)
    (entries : Entries) : named (entries.besides names) name = none := by
  induction entries with
  | nil => rfl
  | cons entry rest ih =>
      obtain ⟨key, value⟩ := entry
      rw [Entries.besides_cons]
      split
      · exact ih
      · rename_i other
        rw [named_cons, ih, if_neg]
        exact fun spells => other ((Value.isName_of_spells spells).trans covered)

/-- A context that binds some names to scalars, which mean nothing else; no value leads to it that it binds. -/
structure State.Supplies (state : State) (options : Options) (scope : Nat) (names : List Text) : Prop where
  inside : scope < state.heap.maps.size
  entries : ∀ entry ∈ state.heap.entries scope,
    state.heap.Spares (· = .map scope) entry.1 ∧ state.heap.Spares (· = .map scope) entry.2
  leaves : ∀ name ∈ names, options.Leaves name
  scalar : ∀ name ∈ names, ∃ value, named (state.heap.entries scope) name = some value ∧
    value.isScalar = true

namespace State.Supplies

variable {state : State} {options : Options} {scope : Nat} {names : List Text}
  (supplies : state.Supplies options scope names)

/-- What the context holds under the names is known. -/
theorem named_known {name : Text} {value : Value}
    (known : named (Entries.besides (!names.contains ·) (state.heap.entries scope)) name = some value) :
    name ∈ names ∧ named (state.heap.entries scope) name = some value := by
  cases inside : names.contains name with
  | true =>
      rw [named_besides (congrArg (!·) inside)] at known
      exact ⟨List.contains_iff_mem.mp inside, known⟩
  | false =>
      rw [named_besides_none (congrArg (!·) inside)] at known
      cases known

theorem known_named {name : Text} {value : Value} (inside : name ∈ names)
    (held : named (state.heap.entries scope) name = some value) :
    named (Entries.besides (!names.contains ·) (state.heap.entries scope)) name = some value :=
  (named_besides (congrArg (!·) (List.contains_iff_mem.mpr inside)) _).trans held

include supplies in
theorem knowable :
    Knowable options (Entries.besides (!names.contains ·) (state.heap.entries scope)) where
  scalar known := by
    obtain ⟨member, held⟩ := named_known known
    obtain ⟨value, found, scalar⟩ := supplies.scalar _ member
    rw [held] at found
    cases found
    exact scalar
  function known := (supplies.leaves _ (named_known known).1).function
  operator known := (supplies.leaves _ (named_known known).1).operator
  proper known := (supplies.leaves _ (named_known known).1).proper
  unregistered known := (supplies.leaves _ (named_known known).1).unregistered

end State.Supplies

/-- The start of a run of a program beside one of the program with a term in place of a name. The scopes of
calls are copies of the context, and nothing binds the names in any of them. -/
def splicing (world : Recursion.World) {options : Options} (dialect : Nat) {scope : Nat} {names : List Text}
    (supplies : world.compiled.Supplies options scope names) (early late : Prop) (effort : Nat) : Footing where
  world := world
  options := options
  dialect := dialect
  scopes place := place == scope
  avoid place := place = .map scope
  trusted _ := False
  veil :=
    { binds := fun name => !names.contains name
      shares := fun _ => True
      rest := Entries.besides (!names.contains ·) (world.state.heap.entries scope)
      known := Entries.besides (!names.contains ·) (world.state.heap.entries scope)
      lasts := true
      knowable := supplies.knowable
      rests := fun known => ⟨by simp [(State.Supplies.named_known known).1], known⟩
      thin := fun _ _ => trivial }
  exact := True
  early := early
  late := late
  effort := effort
  inside _ apart := beq_iff_eq.mp apart ▸ supplies.inside
  avoided := Heap.Place.map_of_beq

section

variable {world : Recursion.World} {options : Options} {dialect scope effort : Nat} {names : List Text}
  {early late : Prop} (supplies : world.compiled.Supplies options scope names)

include supplies

theorem splicing_ready (standard : world.state.dialect dialect = .standard options) :
    (splicing world dialect supplies early late effort).Ready := by
  have dialects : (splicing world dialect supplies early late effort).world.state.dialect
      (splicing world dialect supplies early late effort).dialect = .standard options := standard
  refine ⟨?_, ?_, ?_, fun entry member => .inl ?_, nofun⟩
  · rw [dialects]
    exact Dialect.operates_standard options
  · rw [dialects]
    rfl
  · rw [dialects]
    exact fun word standard => standard
  · rwa [dialects] at member

theorem splicing_beside : (splicing world dialect supplies early late effort).Beside world where
  sequences := rfl
  size := rfl
  maps _ _ := rfl
  scopes place apart := by
    obtain rfl : place = scope := beq_iff_eq.mp apart
    refine ⟨fun name _ => ?_, fun name value _ held => ?_, fun _ => rfl, fun _ => ?_⟩
    · simp only [Footing.move_value, Option.map_id']
      rfl
    · obtain ⟨entry, member, rfl⟩ := mem_of_named held
      have spares : (splicing world dialect supplies early late effort).Spares entry.2 :=
        (supplies.entries entry member).2.in_heap rfl rfl
      exact Footing.knows_of_spares spares _
    · rw [Footing.move_entries]
      rfl
  dialects := rfl
  definitions := rfl
  seed := rfl
  closures := rfl

/-- A program that does not bind the names comes to the same with a term that yields the value of one of
them in its place. -/
theorem splicing_twins {sought : Text} {value : Value} {term replacement : Term} (ordinary : term.ordinary = true)
    (literals : ∀ value, .literal value ∈ term.code.contents → value.isScalar = true)
    (unbound : ∀ name ∈ names, .target name ∉ term.code.contents) (inside : sought ∈ names)
    (bound : named (world.state.heap.entries scope) sought = some value)
    (yields : Term.Yields (Entries.besides (!names.contains ·) (world.state.heap.entries scope)) effort
      replacement value) :
    (splicing world dialect supplies early late effort).mirror.Twins true term
      (Term.substitute sought replacement term) := by
  have binds (name : Text) (target : .target name ∈ term.code.contents) : names.contains name = false := by
    by_contra covered
    exact unbound name (List.contains_iff_mem.mp (eq_true_of_ne_false covered)) target
  have fits : (splicing world dialect supplies early late effort).mirror.Fits (fun _ => False) true term := by
    refine ⟨ordinary, fun instruction member => ?_, fun name member _ => ?_⟩
    · cases instruction with
      | literal value => exact .inl (literals value member)
      | name word => exact .inr ⟨.inl trivial, .inl fun _ => trivial⟩
      | target word => exact fun _ => congrArg (!·) (binds word member)
      | _ => trivial
    · exact congrArg (!·) (binds name (Term.target_of_assigned term member))
  have each (under : Bool)
      (lies : under = true ∨ under = (splicing world dialect supplies early late effort).mirror.inner true) :
      (splicing world dialect supplies early late effort).mirror.Twins under (.name sought) replacement := by
    obtain rfl : under = true := by
      rcases lies with rfl | rfl <;> rfl
    exact .supplies trivial trivial (State.Supplies.known_named inside bound) yields
  have twins : (splicing world dialect supplies early late effort).mirror.Twins true
      (Term.substitute sought (.name sought) term) (Term.substitute sought replacement term) :=
    Mirror.twins_substitute nofun true (fun under lies _ => each under lies) term fits
  rwa [Term.substitute_name] at twins

/-- What both runs have left agrees. -/
theorem splicing_agrees {term other : Term} {depth depthTwo : Nat} {outcome : Except Failure Value}
    {one two : Recursion.World} {later : (splicing world dialect supplies early late effort).mirror.Stage}
    (arrives : (splicing world dialect supplies early late effort).Arrives outcome one two later)
    (cameOne : Recursion.evaluate depth dialect term scope world = some (outcome, one))
    (cameTwo : Recursion.evaluate depthTwo dialect other scope world = some (outcome, two)) :
    one.compiled.Agrees scope outcome two.compiled := by
  have alike := arrives.alike (beq_self_eq_true scope)
  refine ⟨?_, fun name value held => arrives.shares (alike.known name value (fun _ => trivial) held),
    fun value same => arrives.shares (arrives.knows value same), arrives.signatures ?_⟩
  · exact (alike.exact trivial).trans (Footing.move_entries _)
  · exact fun place function found => ⟨Machine.function?_lasts found (Recursion.perform_compiled cameOne),
      Machine.function?_lasts found (Recursion.perform_compiled cameTwo)⟩

end

/-- A program that left a value on the stack did what recursion on its term does. -/
theorem Recursion.part_of_steps {world : World} {frame : Frame} {level : Nat} {term : Term} {value : Value}
    {stopped : State} (left : steps (Machine.perform level) frame term.code [] world.compiled =
      some (.ok [.value value], stopped)) :
    ∃ later, part (Recursion.perform level) frame term world = some (.ok (.value value), later) := by
  have tracked := tracks_part (follows_perform level) frame term [] world
  rw [left] at tracked
  obtain ⟨⟨outcome, later⟩, came, same⟩ := Option.map_eq_some_iff.mp tracked.symm
  rcases outcome with failure | part
  · cases same
  · cases part with
    | value known =>
        cases same
        exact ⟨later, came⟩
    | deferred known => cases same

/-- What an evaluation comes to, recursion comes to. -/
theorem Machine.Evaluates.recursion {world : Recursion.World} {dialect scope : Nat} {term : Term} {after : State}
    {outcome : Except Failure Value}
    (evaluates : Evaluates dialect term.code scope world.compiled outcome after) :
    ∃ depth later, Recursion.evaluate depth dialect term scope world = some (outcome, later) ∧
      later.compiled = after := by
  obtain ⟨depth, came⟩ := evaluates
  obtain ⟨later, found, same⟩ := @Recursion.perform_of_compiled _ (.run dialect (.whole term) scope) _ _ _ came
  exact ⟨depth, later, found, same⟩

/-- A context with scalars under two names, and the tables of a parser with all features. -/
def scalarContext : State :=
  { heap := { maps := #[[(.text (Text.ofString "a"), .int 3), (.text (Text.ofString "x"), .int 2)]] }
    dialects := #[.standard {}] }

end Formula
