import Formula.Proofs.Correctness
import Formula.Proofs.Footing

/-!
What runs leave alone: in its context, a program changes the bindings of no names but those that it binds
there itself.
-/

namespace Formula

open Machine
open Recursion (Closure)

/-- A context to which nothing leads but its name: neither its own bindings, nor the scopes of the functions
of a dialect, nor the values in their bodies. -/
structure State.Secludes (state : State) (dialect scope : Nat) : Prop where
  inside : scope < state.heap.maps.size
  entries : ∀ entry ∈ state.heap.entries scope,
    state.heap.Spares (· = .map scope) entry.1 ∧ state.heap.Spares (· = .map scope) entry.2
  scopes : ∀ function ∈ state.heap.functions, function.dialect = dialect →
    function.scope = scope ∨ state.heap.Spares (· = .map scope) (.map function.scope)
  bodies : ∀ function ∈ state.heap.functions, function.dialect = dialect → ∀ program value,
    function.body = .suspended program → .literal value ∈ program.contents →
      state.heap.Spares (· = .map scope) value

theorem knowable_nil (options : Options) : Knowable options [] := by
  constructor <;> intro name value held <;> cases held

/-- The start of a run beside itself, under a veil that shows which names it may bind. -/
def framing (world : Recursion.World) (options : Options) (dialect : Nat) {scope : Nat}
    (inside : scope < world.state.heap.maps.size) (names : List Text) : Footing where
  world := world
  options := options
  dialect := dialect
  scopes place := place == scope
  avoid place := place = .map scope
  trusted place := ∃ closure, world.closures[place]? = some closure ∧ closure.dialect = dialect
  veil :=
    { binds := fun name => names.contains name
      shares := fun _ => True
      rest := Entries.besides (names.contains ·) (world.state.heap.entries scope)
      known := []
      lasts := false
      knowable := knowable_nil options
      rests := nofun
      thin := fun _ _ => trivial }
  exact := False
  early := False
  late := False
  effort := 0
  inside _ apart := beq_iff_eq.mp apart ▸ inside
  avoided := Heap.Place.map_of_beq

namespace State.Secludes

variable {world : Recursion.World} {options : Options} {dialect scope : Nat}
  (secludes : world.compiled.Secludes dialect scope)

include secludes

/-- What is spared where the world is compiled is spared in the world. -/
theorem framed {names : List Text} {value : Value}
    (spares : world.compiled.heap.Spares (· = .map scope) value) :
    (framing world options dialect secludes.inside names).Spares value :=
  spares.in_heap rfl rfl

/-- What is secluded is ready to be framed. -/
theorem ready {known : List Options} {serials : List Nat} (orderly : world.compiled.Orderly)
    (registers : world.compiled.Registers known serials) (created : known[dialect]? = some options)
    (names : List Text) : (framing world options dialect secludes.inside names).Ready := by
  refine Footing.ready_of_registers registers created (fun place closure found own => ⟨closure, found, own⟩) ?_
  rintro place ⟨closure, found, own⟩
  have compiled : world.compiled.heap.function? place = some closure.compiled := by
    rw [Recursion.compiled_function?, found]
    rfl
  have member : closure.compiled ∈ world.compiled.heap.functions := Array.mem_of_getElem? compiled
  refine ⟨closure, found, own, ?_, ?_, ?_⟩
  · rcases secludes.scopes _ member own with same | spares
    · exact .inr ⟨beq_iff_eq.mpr same, rfl⟩
    · exact .inl (secludes.framed spares)
  · exact Term.ordinary_of_disciplined (orderly place _ _ compiled rfl)
  · exact fun value held => secludes.framed (secludes.bodies _ member own _ value rfl held)

theorem beside (names : List Text) :
    (framing world options dialect secludes.inside names).Beside world where
  sequences := rfl
  size := rfl
  maps _ _ := rfl
  scopes place apart := by
    obtain rfl : place = scope := beq_iff_eq.mp apart
    refine ⟨fun name _ => ?_, fun name value _ held => ?_, fun _ => rfl, False.elim⟩
    · simp only [Footing.move_value, Option.map_id']
      rfl
    · obtain ⟨entry, member, rfl⟩ := mem_of_named held
      exact Footing.knows_of_spares (secludes.framed (secludes.entries entry member).2) _
  dialects := rfl
  definitions := rfl
  seed := rfl
  closures := rfl

/-- A term that binds no names but these may be framed. -/
theorem fits {term : Term} (ordinary : term.ordinary = true)
    (literals : ∀ value, .literal value ∈ term.code.contents →
      world.compiled.heap.Spares (· = .map scope) value) :
    (framing world options dialect secludes.inside term.assigned).mirror.Fits (fun _ => False) true term where
  ordinary := ordinary
  contents instruction member := by
    cases instruction with
    | literal value => exact Footing.holds_of_spares (secludes.framed (literals value member))
    | name word => exact .inr ⟨.inl trivial, .inl fun _ => trivial⟩
    | target word => exact nofun
    | _ => trivial
  assigned name member _ := List.contains_iff_mem.mpr member

/-- A run beside itself spares what its scope holds under other names than it may bind. -/
theorem kept {names : List Text} {outcome : Except Failure Value} {came : Option (Except Failure Value × Recursion.World)}
    {after : Recursion.World} (found : came = some (outcome, after))
    (ends : (framing world options dialect secludes.inside names).stage.Ends Mirror.Stage.Same came came) :
    Entries.besides (names.contains ·) (after.state.heap.entries scope) =
      Entries.besides (names.contains ·) (world.state.heap.entries scope) := by
  obtain ⟨two, later, again, arrives⟩ := Footing.arrives_left ends id found
  have same := found.symm.trans again
  cases same
  have alike := arrives.alike (beq_self_eq_true scope)
  exact alike.besides rfl

end State.Secludes

/-- The courses of a session reach what is reached. -/
theorem Course.reached {known others : List Options} {state later : State} (reached : Reached state)
    (course : Course Circulating (known, state) (others, later)) : Reached later := by
  generalize last : (others, later) = end_ at course
  induction course generalizing others later with
  | refl =>
      cases last
      exact reached
  | tail _ happens ih =>
      cases happens with
      | created options =>
          cases last
          exact .changed (ih rfl) rfl
      | evaluated _ circulating depth scope came =>
          cases last
          exact .evaluated (ih rfl) circulating depth _ scope came
      | changed functions =>
          cases last
          exact .changed (ih rfl) functions

open State.Secludes Recursion in
/-- Only assigned names change. -/
theorem only_assigned_names_change {first state : State} {known : List Options} {dialect scope : Nat}
    (functionless : first.heap.functions = #[]) (bare : first.dialects = #[])
    (course : Course Circulating ([], first) (known, state)) (created : dialect < known.length)
    (secludes : state.Secludes dialect scope) :
    (∀ parser source term, parser.constants = standardConstants → parse parser source = .ok term →
      ∀ depth outcome after, perform depth (.run dialect term.code scope) state = some (outcome, after) →
        Entries.besides (term.assigned.contains ·) (after.heap.entries scope) =
            Entries.besides (term.assigned.contains ·) (state.heap.entries scope) ∧
          ∀ name, name ∉ term.assigned →
            named (after.heap.entries scope) name = named (state.heap.entries scope) name) ∧
      ∀ place function arguments, state.heap.function? place = some function → function.dialect = dialect →
        (∀ argument ∈ arguments, state.heap.Spares (· = .map scope) argument) →
        ∀ depth outcome after, perform depth (.call (.defined place) arguments) state =
          some (outcome, after) → after.heap.entries scope = state.heap.entries scope := by
  have reached : Reached state := Course.reached (.opened functionless) course
  obtain ⟨serials, registers⟩ := course.registers (State.Registers.start functionless bare)
  obtain ⟨world, rfl⟩ := reached.world
  have options := List.getElem?_eq_getElem created
  refine ⟨fun parser source term constants parsed depth outcome after came => ?_,
    fun place function arguments found own spares depth outcome after came => ?_⟩
  · have fits := @fits _ known[dialect] _ _ secludes term
      (Term.ordinary_of_disciplined (parse_disciplined parsed))
      fun value held => Heap.spares_scalar (parse_literals constants parsed held)
    have ready := secludes.ready reached.orderly registers options term.assigned
    obtain ⟨later, arrived, rfl⟩ := @perform_of_compiled _ (.run dialect (.whole term) scope) _ _ _ came
    have besides := secludes.kept arrived
      (Footing.ends_run ready (secludes.beside _) (.inr (Nat.le_refl 0)) (.inr rfl)
        (beq_self_eq_true scope) fits.twins depth)
    refine ⟨besides, fun name other => ?_⟩
    have same := congrArg (named · name) besides
    have free : term.assigned.contains name = false := by simpa using other
    rwa [named_besides free, named_besides free] at same
  · have ready := secludes.ready reached.orderly registers options []
    obtain ⟨later, arrived, rfl⟩ := @perform_of_compiled _ (.call (.defined place) arguments) _ _ _ came
    rw [compiled_function?, Option.map_eq_some_iff] at found
    obtain ⟨closure, found, rfl⟩ := found
    have besides := secludes.kept arrived
      (Footing.ends_call ready (secludes.beside _) (.inr (Nat.le_refl 0)) (.inr rfl) ⟨closure, found, own⟩
        (fun argument member => secludes.framed (spares argument member)) depth)
    rwa [Entries.besides_none, Entries.besides_none] at besides

theorem only_assigned_names_change_of_call :
    let first : State := { heap := { maps := #[[(.text (Text.ofString "a"), .int 1)]] } }
    ∃ one two state, parse (.standard {}) (Text.ofString "f(x) = (a = x)") = .ok one ∧
      parse (.standard {}) (Text.ofString "f(5)") = .ok two ∧
      Course Circulating ([], first) ([{}], state) ∧ state.Secludes 0 0 ∧
      perform 1 (.run 0 one.code 0) { first with dialects := #[.standard {}] } =
        some (.ok (.defined 0), state) ∧
      ∃ after, perform 5 (.run 0 two.code 0) state = some (.ok (.int 5), after) ∧
        named (after.heap.entries 0) (Text.ofString "a") = some (.int 1) := by
  intro first
  obtain ⟨one, parsedOne, codeOne⟩ := parse_code (by decide +kernel : (reading (.standard {})
    (Text.ofString "f(x) = (a = x)")).comesTo [.target (Text.ofString "f"), .target (Text.ofString "x"),
      .nested [.target (Text.ofString "a"), .nested [.name (Text.ofString "x")],
        .binary (Text.ofString "=")], .define 1] = true)
  obtain ⟨two, parsedTwo, codeTwo⟩ := parse_code (by decide +kernel : (reading (.standard {})
    (Text.ofString "f(5)")).comesTo [.name (Text.ofString "f"), .literal (.int 5), .call 1] = true)
  have came : ∃ state after, perform 1 (.run 0 one.code 0) { first with dialects := #[.standard {}] } =
        some (.ok (.defined 0), state) ∧
      perform 5 (.run 0 two.code 0) state = some (.ok (.int 5), after) ∧ state.heap.maps.size = 1 ∧
      state.heap.entries 0 = [(.text (Text.ofString "a"), .int 1), (.text (Text.ofString "f"), .defined 0)] ∧
      state.heap.functions.toList = [⟨Text.ofString "f", [.text (Text.ofString "x")],
        .suspended [.target (Text.ofString "a"), .nested [.name (Text.ofString "x")],
          .binary (Text.ofString "=")], 0, 0⟩] := by
    rw [codeOne, codeTwo]
    exact ⟨_, _, rfl, rfl, rfl, rfl, rfl⟩
  obtain ⟨state, after, defined, called, size, entries, functions⟩ := came
  have course : Course Circulating ([], first) ([{}], state) :=
    (Relation.ReflTransGen.single (.created {})).tail
      (.evaluated (by decide) (.parsed parsedOne) 1 0 defined)
  have secludes : state.Secludes 0 0 := by
    refine ⟨by rw [size]; decide, fun entry member => ?_, fun function member _ => ?_,
      fun function member _ program value body held => ?_⟩
    · rw [entries] at member
      simp only [List.mem_cons, List.not_mem_nil, or_false] at member
      rcases member with rfl | rfl
      · exact ⟨Heap.spares_of_placeless rfl, Heap.spares_of_placeless rfl⟩
      · exact ⟨Heap.spares_of_placeless rfl, Heap.spares_of_placeless rfl⟩
    · rw [← Array.mem_toList_iff, functions, List.mem_singleton] at member
      exact .inl (member ▸ rfl)
    · rw [← Array.mem_toList_iff, functions, List.mem_singleton] at member
      subst member
      cases body
      simp [Program.contents, allContents, Instruction.contents] at held
  refine ⟨one, two, state, parsedOne, parsedTwo, course, secludes, defined, after, called, ?_⟩
  have frames := (only_assigned_names_change rfl rfl course (by decide) secludes).1 _ _ two rfl parsedTwo
    5 _ after called
  rw [frames.2 (Text.ofString "a") fun assigned => ?_, entries]
  · rfl
  · have member := Term.target_of_assigned two assigned
    rw [codeTwo] at member
    simp [Program.contents, allContents, Instruction.contents] at member

/-- A context without bindings, and another one that leads to it. -/
def linked : State := { heap := { maps := #[[], [(.text (Text.ofString "c"), .map 0)]] } }

/-- Through the scope of a function, a call may bind a name in another context, if that scope leads to it. -/
theorem shared_context_changes :
    ∃ one two state after, parse (.standard {}) (Text.ofString "f() = (c.x = 5)") = .ok one ∧
      parse (.standard {}) (Text.ofString "lambda_0()") = .ok two ∧
      Course Circulating ([], linked) ([{}], state) ∧ state.heap.entries 0 = [] ∧
      perform 5 (.run 0 two.code 0) state = some (.ok (.int 5), after) ∧
      Text.ofString "x" ∉ two.assigned ∧
      named (after.heap.entries 0) (Text.ofString "x") = some (.int 5) := by
  obtain ⟨one, parsedOne, codeOne⟩ := parse_code (by decide +kernel : (reading (.standard {})
    (Text.ofString "f() = (c.x = 5)")).comesTo [.target (Text.ofString "f"),
      .nested [.name (Text.ofString "c"), .target (Text.ofString "x"), .nested [.literal (.int 5)],
        .ternary (Text.ofString "=")], .define 0] = true)
  obtain ⟨two, parsedTwo, codeTwo⟩ := parse_code (by decide +kernel : (reading (.standard {})
    (Text.ofString "lambda_0()")).comesTo [.name (Text.ofString "lambda_0"), .call 0] = true)
  have came : ∃ state, perform 1 (.run 0 one.code 1) { linked with dialects := #[.standard {}] } =
        some (.ok (.defined 0), state) ∧ state.heap.entries 0 = [] ∧
      ∃ after, perform 5 (.run 0 two.code 0) state = some (.ok (.int 5), after) ∧
        named (after.heap.entries 0) (Text.ofString "x") = some (.int 5) := by
    rw [codeOne, codeTwo]
    exact ⟨_, rfl, rfl, _, rfl, rfl⟩
  obtain ⟨state, defined, empty, after, called, bound⟩ := came
  have course : Course Circulating ([], linked) ([{}], state) :=
    (Relation.ReflTransGen.single (.created {})).tail
      (.evaluated (by decide) (.parsed parsedOne) 1 1 defined)
  refine ⟨one, two, state, after, parsedOne, parsedTwo, course, empty, called, fun assigned => ?_, bound⟩
  have member := Term.target_of_assigned two assigned
  rw [codeTwo] at member
  simp [Program.contents, allContents, Instruction.contents] at member

end Formula
